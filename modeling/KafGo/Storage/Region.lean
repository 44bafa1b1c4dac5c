import KafGo.Storage.Built

/-!
# The region of a fetch

`FindRecords` looks up the segment and the index, scans headers for the batch that holds the offset and
then adds up whole batches. The scan keeps the batch before the current one and returns it when the
current one starts at or above the offset, so an offset that is itself the start of a batch is answered
from the batch before, unless the scan starts right there.
-/

namespace KafGo.Storage
open Lib

section Turns

variable {fs pre post : List StoredBatch} {f : StoredBatch} {tail : Bytes}

theorem readBatchMeta17_batch (split : fs = pre ++ f :: post) :
    readBatchMeta17 (bytesOf fs ++ tail) (bytesOf pre).length =
      .ok ⟨(bytesOf pre).length, f.base, f.length⟩ := by
  have header := read_header [] tail split (n := headerSizeUpToMagic) (by decide)
  simp only [List.nil_append, List.length_nil, Int.natCast_zero, Int.zero_add] at header
  unfold readBatchMeta17
  rw [length_bytesOf, header]
  dsimp only
  rw [f.header_baseOffset (by decide), f.header_totalLen (by decide)]

theorem readLastOffset_batch (split : fs = pre ++ f :: post) :
    readLastOffset (bytesOf fs ++ tail) ⟨(bytesOf pre).length, f.base, f.length⟩ =
      .ok ((f.base + (f.count - 1) : Nat) : Int) := by
  have countFits := f.countFits
  have fits := f.fits
  have positive := f.positive
  have field := read_field [] tail split (k := headerSizeUpToMagic) (n := 10) (by decide)
  simp only [List.nil_append, List.length_nil, Int.natCast_zero, Int.zero_add] at field
  have delta : int32At (slice f.data headerSizeUpToMagic 10) 6 = ((f.count - 1 : Nat) : Int) := by
    unfold int32At
    rw [uint32At_slice (by decide), show headerSizeUpToMagic + 6 = offsetLastOffsetDelta from rfl,
      f.lastOffsetDelta, signed_of_lt (by omega)]
  unfold readLastOffset
  dsimp only
  rw [length_bytesOf, field]
  dsimp only
  rw [delta, ← Int.natCast_add, wrapSigned_natCast (by decide) (by omega)]

variable {off : Nat}

theorem scanTurn_past (split : fs = pre ++ f :: post) (passed : f.base + f.count ≤ off) (st : ScanState) :
    scanTurn (bytesOf fs ++ tail) off (bytesOf pre).length st =
      .next f.length { st with preMeta := some ⟨(bytesOf pre).length, f.base, f.length⟩ } := by
  have positive := f.positive
  unfold scanTurn
  rw [readBatchMeta17_batch split]
  dsimp only
  rw [if_neg (by omega), readLastOffset_batch split]
  dsimp only
  rw [if_neg (by omega)]

theorem scanTurn_inside (split : fs = pre ++ f :: post) (low : f.base < off) (high : off < f.base + f.count)
    (st : ScanState) :
    scanTurn (bytesOf fs ++ tail) off (bytesOf pre).length st =
      .stop { st with startPos := (bytesOf pre).length } := by
  unfold scanTurn
  rw [readBatchMeta17_batch split]
  dsimp only
  rw [if_neg (by omega), readLastOffset_batch split]
  dsimp only
  rw [if_pos (by omega)]

theorem scanTurn_start (split : fs = pre ++ f :: post) (low : off ≤ f.base) (st : ScanState) :
    scanTurn (bytesOf fs ++ tail) off (bytesOf pre).length st =
      .stop { st with startPos := (st.preMeta.map BatchMeta.filePos).getD (bytesOf pre).length } := by
  unfold scanTurn
  rw [readBatchMeta17_batch split]
  dsimp only
  rw [if_pos (by omega)]
  cases st.preMeta <;> rfl

theorem accumulateTurn_batch (tail : Bytes) (split : fs = pre ++ f :: post) {maxBytes : Int} (budget : 0 < maxBytes)
    (acc : Int) :
    accumulateTurn (bytesOf fs ++ tail) maxBytes (bytesOf pre).length acc =
      if acc + f.length ≤ maxBytes then .next f.length (acc + f.length)
      else if 0 < acc then .stop acc else .stop (acc + f.length) := by
  unfold accumulateTurn
  rw [readBatchMeta17_batch split]
  dsimp only
  by_cases within : acc + f.length ≤ maxBytes
  · rw [if_pos within, if_neg (by omega), if_neg (by omega)]
  · rw [if_neg within]
    by_cases some : 0 < acc
    · rw [if_pos some, if_pos (by omega)]
    · rw [if_neg some, if_neg (by omega), if_pos (by omega)]

theorem batch_room (tail : Bytes) (split : fs = pre ++ f :: post) :
    ((bytesOf pre).length : Int) + headerSizeUpToMagic ≤ (bytesOf fs ++ tail).length := by
  have room := header_room [] tail split
  have long := f.length_pos
  simp only [List.nil_append, List.length_nil, Int.natCast_zero, Int.zero_add] at room
  rw [length_bytesOf]
  simp only [headerSizeUpToMagic]
  omega

end Turns

variable {s : Segment} {fs post pre : List StoredBatch} {g : StoredBatch} {off b : Nat} {maxBytes : Int}
  {ss : List Segment} {layout : List (List StoredBatch)}

theorem bytesOf_position (a crossed : List StoredBatch) :
    ((bytesOf a).length : Int) + ((crossed.map StoredBatch.length).sum : Nat) = (bytesOf (a ++ crossed)).length := by
  rw [bytesOf_append, List.length_append, length_bytesOf crossed, Int.natCast_add]

/-- A scan that starts at a batch, passes the batches `m` and meets the first one that ends above `off`. -/
theorem findStart_meets {a m : List StoredBatch} {tail : Bytes} (file : s.logFile = bytesOf fs ++ tail)
    (aim : s.offsetIndex.lookup off = (bytesOf a).length) (split : fs = a ++ m ++ g :: post)
    (passed : ∀ h ∈ m, h.base + h.count ≤ off) (reached : off < g.base + g.count) :
    ∃ st, s.findStart off = .ok st ∧
      st.startPos = if m = [] ∨ g.base < off then ((bytesOf (a ++ m)).length : Int)
        else (bytesOf (a ++ m.dropLast)).length := by
  have enough : m.length < s.fuel := by
    have bound := length_le_bytesOf fs
    have count : fs.length = a.length + m.length + (post.length + 1) := by
      simp only [split, List.length_append, List.length_cons]
    simp only [Segment.fuel, file, List.length_append]
    omega
  obtain ⟨spare, fuelEq⟩ : ∃ spare, s.fuel = spare + 1 + m.length := ⟨s.fuel - 1 - m.length, by omega⟩
  obtain ⟨st, ⟨unset, kept⟩, walked⟩ := walk_cross LogError.diverges headerSizeUpToMagic s.logFile.length
    (bytesOf a).length (scanTurn s.logFile off) (spare + 1) ⟨-1, none⟩ StoredBatch.length
    (fun crossed st => st.startPos = -1 ∧ st.preMeta.map BatchMeta.filePos =
      if crossed = [] then none else some ((bytesOf (a ++ crossed.dropLast)).length : Int))
    m ⟨rfl, rfl⟩ (by
      intro crossed h rest st inner found
      have unset := found.1
      have whole : fs = (a ++ crossed) ++ h :: (rest ++ g :: post) := by rw [split, inner]; simp
      rw [bytesOf_position, file]
      refine ⟨batch_room tail whole, _, scanTurn_past whole (passed h (by rw [inner]; simp)) st, unset, ?_⟩
      simp)
  unfold Segment.findStart
  rw [aim, fuelEq, walked, bytesOf_position, file]
  by_cases low : g.base < off
  · exact ⟨_, walk_stop (batch_room tail split) (scanTurn_inside split low reached st), by rw [if_pos (Or.inr low)]⟩
  · refine ⟨_, walk_stop (batch_room tail split) (scanTurn_start split (by omega) st), ?_⟩
    dsimp only
    rw [kept]
    by_cases direct : m = []
    · rw [if_pos direct, if_pos (Or.inl direct)]
      rfl
    · rw [if_neg direct, if_neg (by tauto)]
      rfl

/-- A scan that starts at or before `g` goes on to `g`, or stops at the batch before it. -/
theorem findStart_before {n : Nat} {tail : Bytes} (file : s.logFile = bytesOf (pre ++ g :: post) ++ tail)
    (aim : s.offsetIndex.lookup off = (bytesOf (pre.take n)).length) (passed : ∀ h ∈ pre, h.base + h.count ≤ off)
    (reached : off < g.base + g.count) :
    ∃ p m st, pre = p ++ m ∧ s.findStart off = .ok st ∧ st.startPos = (bytesOf p).length ∧
      (m = [] → pre.drop n = [] ∨ g.base < off) := by
  obtain ⟨st, found, start⟩ := findStart_meets file aim (by rw [List.take_append_drop])
    (fun h member => passed h (List.mem_of_mem_drop member)) reached
  by_cases direct : pre.drop n = [] ∨ g.base < off
  · rw [if_pos direct, List.take_append_drop] at start
    exact ⟨pre, [], st, (List.append_nil pre).symm, found, start, fun _ => direct⟩
  · rw [if_neg direct] at start
    have some := (not_or.mp direct).1
    refine ⟨pre.take n ++ (pre.drop n).dropLast, [(pre.drop n).getLast some], st, ?_, found, start, nofun⟩
    rw [List.append_assoc, List.dropLast_append_getLast, List.take_append_drop]

/-- `size` is the total of the longest run of leading lengths within the budget, or the first alone. -/
def LongestRun (maxBytes : Int) (lens : List Nat) (size : Int) : Prop :=
  ∃ k, 1 ≤ k ∧ k ≤ lens.length ∧ size = ((lens.take k).sum : Nat) ∧ (k = 1 ∨ size ≤ maxBytes) ∧
    (k = lens.length ∨ maxBytes < ((lens.take (k + 1)).sum : Nat))

/-- From a batch on, batches are added up as long as they fit; the first one of all is taken anyway. -/
theorem accumulate_rest (file : Bytes) (budget : 0 < maxBytes) (rest : List StoredBatch) :
    ∀ (pre : List StoredBatch) (acc : Int) (fuel : Nat), file = bytesOf (pre ++ rest) → 0 ≤ acc →
      rest.length < fuel →
      ∃ k ≤ rest.length,
        walk .diverges headerSizeUpToMagic file.length (accumulateTurn file maxBytes) fuel
          (bytesOf pre).length acc = .ok (acc + (((rest.map StoredBatch.length).take k).sum : Nat)) ∧
        (k = 0 ∧ (0 < acc ∨ rest = []) ∨ k = 1 ∧ acc = 0 ∨
          0 < k ∧ acc + (((rest.map StoredBatch.length).take k).sum : Nat) ≤ maxBytes) ∧
        (k = rest.length ∨ maxBytes < acc + (((rest.map StoredBatch.length).take (k + 1)).sum : Nat)) := by
  induction rest with
  | nil =>
    intro pre acc fuel file_eq nonneg enough
    obtain ⟨fuel, rfl⟩ : ∃ n, fuel = n + 1 := ⟨fuel - 1, by simp at enough; omega⟩
    refine ⟨0, by simp, ?_, Or.inl ⟨rfl, Or.inr rfl⟩, Or.inl rfl⟩
    rw [walk_exit (by simp only [file_eq, List.append_nil, headerSizeUpToMagic]; omega)]
    simp
  | cons f rest ih =>
    intro pre acc fuel file_eq nonneg enough
    obtain ⟨fuel, rfl⟩ : ∃ n, fuel = n + 1 := ⟨fuel - 1, by simp at enough; omega⟩
    have long := f.length_pos
    have turn := accumulateTurn_batch [] (Eq.refl (pre ++ f :: rest)) budget acc
    have room := batch_room [] (Eq.refl (pre ++ f :: rest))
    rw [List.append_nil, ← file_eq] at turn room
    simp only [List.map_cons, List.take_succ_cons, List.sum_cons, List.length_cons]
    by_cases within : acc + f.length ≤ maxBytes
    · rw [if_pos within] at turn
      obtain ⟨k, inside, walked, fitting, maximal⟩ := ih (pre ++ [f]) (acc + f.length) fuel
        (by rw [file_eq]; simp) (by omega) (by simp at enough; omega)
      have position : ((bytesOf pre).length : Int) + f.length = (bytesOf (pre ++ [f])).length := by
        simp [StoredBatch.length]
      rw [walk_next room turn, position, walked]
      refine ⟨k + 1, by omega, ?_, Or.inr (Or.inr ⟨by omega, ?_⟩),
        maximal.imp (by omega) (by omega)⟩
      · simp only [List.take_succ_cons, List.sum_cons, Int.natCast_add, Int.add_assoc]
      · simp only [List.take_succ_cons, List.sum_cons]
        rcases fitting with ⟨rfl, _⟩ | ⟨_, zero⟩ | ⟨_, fitting⟩
        · simp only [List.take_zero, List.sum_nil]
          omega
        all_goals omega
    · rw [if_neg within] at turn
      rcases Int.lt_or_eq_of_le nonneg with some | rfl
      · rw [if_pos some] at turn
        rw [walk_stop room turn]
        refine ⟨0, by omega, by simp, Or.inl ⟨rfl, Or.inl some⟩, Or.inr ?_⟩
        simp only [List.take_zero, List.sum_nil]
        omega
      · rw [if_neg (by omega)] at turn
        rw [walk_stop room turn]
        refine ⟨1, by omega, by simp, Or.inr (Or.inl ⟨rfl, rfl⟩), Or.inr ?_⟩
        omega

theorem accumulate_longest (file : s.logFile = bytesOf (pre ++ g :: post)) (budget : 0 < maxBytes) :
    ∃ size, s.accumulate (bytesOf pre).length maxBytes = .ok size ∧
      LongestRun maxBytes ((g :: post).map StoredBatch.length) size := by
  have bound := length_le_bytesOf (pre ++ g :: post)
  rw [← file, List.length_append] at bound
  obtain ⟨k, inside, walked, fitting, maximal⟩ := accumulate_rest s.logFile budget (g :: post) pre 0 s.fuel file
    (Int.le_refl 0) (by unfold Segment.fuel; omega)
  simp only [Int.zero_add] at walked fitting maximal
  refine ⟨_, walked, k, ?_, by rwa [List.length_map], rfl, ?_, by rwa [List.length_map]⟩
  · rcases fitting with ⟨_, absurd | absurd⟩ | ⟨rfl, _⟩ | ⟨some, _⟩
    · omega
    · cases absurd
    all_goals omega
  · rcases fitting with ⟨_, absurd | absurd⟩ | ⟨one, _⟩ | ⟨_, within⟩
    · omega
    · cases absurd
    · exact Or.inl one
    · exact Or.inr within

theorem findRawRegion_start {off size : Int} {pos : Nat} {st : ScanState} (found : s.findStart off = .ok st)
    (start : st.startPos = pos) (accumulated : s.accumulate pos maxBytes = .ok size) (some : size ≠ 0) :
    s.findRawRegion off maxBytes = .ok ((pos : Int), size) := by
  unfold Segment.findRawRegion
  simp only [found, bind, Except.bind, start, pure, Except.pure]
  rw [if_neg (by omega)]
  dsimp only
  rw [accumulated]
  dsimp only
  rw [if_neg some]

theorem findRawRegion_from {off : Int} {st : ScanState} (file : s.logFile = bytesOf (pre ++ g :: post))
    (budget : 0 < maxBytes) (found : s.findStart off = .ok st) (start : st.startPos = (bytesOf pre).length) :
    ∃ size, s.findRawRegion off maxBytes = .ok (((bytesOf pre).length : Int), size) ∧
      LongestRun maxBytes ((g :: post).map StoredBatch.length) size := by
  obtain ⟨size, accumulated, longest⟩ := accumulate_longest file budget
  have positive : size ≠ 0 := by
    obtain ⟨k, one, _, sum, _⟩ := longest
    obtain ⟨k, rfl⟩ : ∃ n, k = n + 1 := ⟨k - 1, by omega⟩
    have long := g.length_pos
    simp only [List.map_cons, List.take_succ_cons, List.sum_cons] at sum
    omega
  exact ⟨size, findRawRegion_start found start accumulated positive, longest⟩

/-- Segment number `i` and its batch `g` hold the offset `off`. -/
structure Located (ss : List Segment) (layout : List (List StoredBatch)) (off i : Nat) (s : Segment) (base : Nat)
    (pre : List StoredBatch) (g : StoredBatch) (post : List StoredBatch) : Prop where
  found : ss[i]? = some s
  batches : layout[i]? = some (pre ++ g :: post)
  holds : s.Holds base (pre ++ g :: post)
  chain : ∃ last, Chained base (pre ++ g :: post) last
  low : g.base ≤ off
  high : off < g.base + g.count
  order : ∀ (j : Nat) (s' : Segment), ss[j]? = some s' → (s'.baseOffset ≤ (off : Int) ↔ j < i + 1)

theorem located_first {m : Nat} (holds : s.Holds b (pre ++ g :: post)) (chain : Chained b (pre ++ g :: post) m)
    (low : g.base ≤ off) (high : off < g.base + g.count) (behind : ∀ s' ∈ ss, (off : Int) < s'.baseOffset) :
    Located (s :: ss) ((pre ++ g :: post) :: layout) off 0 s b pre g post := by
  refine ⟨rfl, rfl, holds, ⟨m, chain⟩, low, high, ?_⟩
  have bounds := chained_mem chain (f := g) (by simp)
  intro j s' found
  cases j with
  | zero =>
    obtain rfl : s = s' := Option.some.inj found
    exact ⟨fun _ => by omega, fun _ => by rw [holds.based]; omega⟩
  | succ j =>
    have later := behind s' (List.mem_of_getElem? found)
    exact ⟨fun _ => by omega, fun _ => by omega⟩

theorem linked_at {e i : Nat} (linked : Linked b ss layout e) (batches : layout[i]? = some (pre ++ g :: post))
    (low : g.base ≤ off) (high : off < g.base + g.count) :
    b ≤ off ∧ off < e ∧ ∃ s base, Located ss layout off i s base pre g post := by
  induction linked generalizing i with
  | @active b e s fs holds chain =>
    cases i with
    | succ i => simp at batches
    | zero =>
      obtain rfl := Option.some.inj batches
      have bounds := chained_mem chain (f := g) (by simp)
      exact ⟨by omega, by omega, s, b, located_first holds chain low high (by simp)⟩
  | @sealed b m e s ss fs layout holds nonempty chain rest ih =>
    have behind := linked_bounds rest
    have ordered := chained_le chain
    cases i with
    | zero =>
      obtain rfl := Option.some.inj batches
      have bounds := chained_mem chain (f := g) (by simp)
      refine ⟨by omega, by omega, s, b, located_first holds chain low high fun s' member => ?_⟩
      have later := behind.2 s' member
      omega
    | succ i =>
      obtain ⟨lower, upper, s', base, located⟩ := ih batches
      refine ⟨by omega, upper, s', base, located.found, located.batches, located.holds, located.chain,
        low, high, ?_⟩
      intro j s'' found
      cases j with
      | zero =>
        obtain rfl : s = s'' := Option.some.inj found
        exact ⟨fun _ => by omega, fun _ => by rw [holds.based]; omega⟩
      | succ j =>
        rw [located.order j s'' found]
        omega

theorem linked_locate {e : Nat} (linked : Linked b ss layout e) (low : b ≤ off) (high : off < e) :
    ∃ i s base pre g post, Located ss layout off i s base pre g post := by
  have inLayout : ∃ (i : Nat) (pre : List StoredBatch) (g : StoredBatch) (post : List StoredBatch),
      layout[i]? = some (pre ++ g :: post) ∧ g.base ≤ off ∧ off < g.base + g.count := by
    induction linked with
    | active holds chain =>
      obtain ⟨pre, g, post, rfl, lower, upper, _⟩ := chained_locate chain low high
      exact ⟨0, pre, g, post, rfl, lower, upper⟩
    | @sealed b m e s ss fs layout holds nonempty chain rest ih =>
      by_cases here : off < m
      · obtain ⟨pre, g, post, rfl, lower, upper, _⟩ := chained_locate chain low here
        exact ⟨0, pre, g, post, rfl, lower, upper⟩
      · obtain ⟨i, pre, g, post, batches, lower, upper⟩ := ih (by omega) high
        exact ⟨i + 1, pre, g, post, batches, lower, upper⟩
  obtain ⟨i, pre, g, post, batches, lower, upper⟩ := inLayout
  obtain ⟨_, _, s, base, located⟩ := linked_at linked batches lower upper
  exact ⟨i, s, base, pre, g, post, located⟩

theorem findRecords_segment {c : CommitLog} {off pos size : Int} {i : Nat} (opened : c.isClosed = false)
    (inside : off < c.nextOffset) (found : c.segments[i]? = some s)
    (order : ∀ (j : Nat) (s' : Segment), c.segments[j]? = some s' → (s'.baseOffset ≤ off ↔ j < i + 1))
    (answer : s.findRawRegion off maxBytes = .ok (pos, size)) :
    c.findRecords off maxBytes = .ok (some ⟨s.logFile, pos, size, c.nextOffset, c.oldestOffset⟩) := by
  have segment : c.segments.getD i c.activeSegment = s := by
    rw [List.getD_eq_getElem?_getD, found]
    rfl
  unfold CommitLog.findRecords
  rw [opened, if_neg (by decide), if_neg (by omega), findSegmentByOffset_located found order]
  dsimp only
  rw [if_neg (by omega), Int.toNat_natCast, segment, answer]

/-- A fetch inside the log is answered by the segment that holds the offset, from the batch that its
scan has chosen. -/
theorem findRecords_from {c : CommitLog} {i base : Nat} {p q : List StoredBatch} {h : StoredBatch} {st : ScanState}
    (opened : c.isClosed = false) (inside : (off : Int) < c.nextOffset) (budget : 0 < maxBytes)
    (located : Located c.segments layout off i s base pre g post) (found : s.findStart off = .ok st)
    (start : st.startPos = (bytesOf p).length) (split : pre ++ g :: post = p ++ h :: q) :
    ∃ size, c.findRecords off maxBytes =
        .ok (some ⟨s.logFile, (bytesOf p).length, size, c.nextOffset, c.oldestOffset⟩) ∧
      LongestRun maxBytes ((h :: q).map StoredBatch.length) size := by
  obtain ⟨size, answer, longest⟩ := findRawRegion_from (by rw [located.holds.file, split]) budget found start
  exact ⟨size, findRecords_segment opened inside located.found located.order answer, longest⟩

/-! ### Where the index sends the scan -/

/-- The scan for `off` starts at the batch `g` that holds it, or at an earlier one if `off` is not the
base offset of `g`. -/
def Aimed (s : Segment) (off : Int) (pre : List StoredBatch) (g : StoredBatch) : Prop :=
  ∃ a m, pre = a ++ m ∧ s.offsetIndex.lookup off = (bytesOf a).length ∧ (m = [] ∨ (g.base : Int) < off)

/-- The region starts at the batch `g` that holds the offset and takes as many whole batches as fit. -/
def ExactRegion (c : CommitLog) (off maxBytes : Int) (s : Segment) (pre : List StoredBatch) (g : StoredBatch)
    (post : List StoredBatch) : Prop :=
  ∃ size, c.findRecords off maxBytes =
      .ok (some ⟨s.logFile, (bytesOf pre).length, size, c.nextOffset, c.oldestOffset⟩) ∧
    LongestRun maxBytes ((g :: post).map StoredBatch.length) size

theorem bytesOf_take_lt {m n : Nat} (order : m < n) (inside : m < fs.length) :
    (bytesOf (fs.take m)).length < (bytesOf (fs.take n)).length := by
  have split : fs.take n = fs.take m ++ fs.get ⟨m, inside⟩ :: (fs.take n).drop (m + 1) := by
    have kept : (fs.take n).take m = fs.take m := by rw [List.take_take, Nat.min_eq_left (by omega)]
    have longer : m < (fs.take n).length := by simp; omega
    have parts := List.take_append_drop m (fs.take n)
    rw [kept, List.drop_eq_getElem_cons longer, List.getElem_take] at parts
    exact parts.symm
  have long := (fs.get ⟨m, inside⟩).long
  rw [split, bytesOf_append, bytesOf_cons]
  simp only [List.length_append]
  omega

theorem lookup_boundary {base : Nat} (holds : s.Holds base fs) (nonempty : fs ≠ [])
    (small : s.logFile.length < 2 ^ 32) (off : Int) :
    ∃ n < fs.length, s.offsetIndex.lookup off = (bytesOf (fs.take n)).length := by
  obtain ⟨marks, indexed⟩ := holds.indexed
  rcases s.offsetIndex.lookup_entry off with zero | ⟨i, below, entry⟩
  · exact ⟨0, List.length_pos_of_ne_nil nonempty, by rw [zero]; rfl⟩
  · have mark : marks[i]? = some (marks.get ⟨i, by rw [indexed.count]; exact below⟩) :=
      List.getElem?_eq_getElem _
    obtain ⟨g, post, _, inside, _, position⟩ := indexed.entry i _ mark
    refine ⟨_, inside, ?_⟩
    have bound := bytesOf_take_lt inside inside
    rw [List.take_length, ← holds.file] at bound
    rw [entry, position, Nat.mod_eq_of_lt (by omega)]

section Exactness

variable {c : CommitLog} {layout : List (List StoredBatch)} {off i base : Nat} {maxBytes : Int} {s : Segment}
  {pre post : List StoredBatch} {g : StoredBatch}

theorem located_before (located : Located c.segments layout off i s base pre g post) :
    ∀ h ∈ pre, h.base + h.count ≤ off := by
  intro h member
  obtain ⟨last, chain⟩ := located.chain
  obtain ⟨m, first, based, _⟩ := chained_append.mp chain
  have inside := chained_mem first member
  have low := located.low
  omega

theorem located_after (located : Located c.segments layout off i s base pre g post) :
    ∀ h ∈ post, off < h.base := by
  intro h member
  obtain ⟨last, chain⟩ := located.chain
  obtain ⟨m, first, based, rest⟩ := chained_append.mp chain
  have inside := chained_mem rest member
  have high := located.high
  omega

/-- From any batch on, a scan stops at a batch, and at `g` only if it was aimed right. -/
theorem findStart_stops {n : Nat} (file : s.logFile = bytesOf (pre ++ g :: post))
    (short : n < (pre ++ g :: post).length)
    (aim : s.offsetIndex.lookup off = (bytesOf ((pre ++ g :: post).take n)).length)
    (passed : ∀ h ∈ pre, h.base + h.count ≤ off) (reached : off < g.base + g.count)
    (behind : ∀ h ∈ post, off < h.base) :
    ∃ p h q st, pre ++ g :: post = p ++ h :: q ∧ s.findStart off = .ok st ∧ st.startPos = (bytesOf p).length ∧
      ((bytesOf p).length = (bytesOf pre).length → Aimed s off pre g) := by
  have file : s.logFile = bytesOf (pre ++ g :: post) ++ [] := by rw [List.append_nil]; exact file
  by_cases earlier : n ≤ pre.length
  · rw [List.take_append_of_le_length earlier] at aim
    obtain ⟨p, m, st, split, found, start, direct⟩ := findStart_before file aim passed reached
    obtain ⟨h, q, parts⟩ : ∃ h q, m ++ g :: post = h :: q := List.exists_cons_of_ne_nil (by simp)
    refine ⟨p, h, q, st, by rw [split, List.append_assoc, parts], found, start, fun same => ?_⟩
    have bound := length_le_bytesOf m
    rw [split, bytesOf_append, List.length_append] at same
    have whole := direct (List.length_eq_zero_iff.mp (by omega))
    exact ⟨_, _, (List.take_append_drop n pre).symm, aim, whole.imp_right Int.ofNat_lt.mpr⟩
  · -- The scan starts behind `g` and takes the batch it starts at.
    obtain ⟨h, rest, parts⟩ : ∃ h rest, (pre ++ g :: post).drop n = h :: rest :=
      ⟨_, _, List.drop_eq_getElem_cons short⟩
    have split : pre ++ g :: post = (pre ++ g :: post).take n ++ h :: rest := by
      rw [← parts, List.take_append_drop]
    have later : h ∈ post := by
      have member : h ∈ (pre ++ g :: post).drop n := by rw [parts]; simp
      obtain ⟨k, rfl⟩ : ∃ k, n = pre.length + (k + 1) := ⟨n - pre.length - 1, by omega⟩
      rw [← List.drop_drop, List.drop_left, List.drop_succ_cons] at member
      exact List.mem_of_mem_drop member
    have above := behind h later
    obtain ⟨st, found, start⟩ := findStart_meets file aim (m := []) (by rw [List.append_nil]; exact split)
      (fun h member => by cases member) (by omega)
    rw [if_pos (Or.inl rfl), List.append_nil] at start
    refine ⟨_, h, rest, st, split, found, start, fun same => ?_⟩
    have beyond : (bytesOf ((pre ++ g :: post).take pre.length)).length < _ :=
      bytesOf_take_lt (n := n) (by omega) (by simp)
    rw [List.take_left] at beyond
    omega

theorem aimed_exact (opened : c.isClosed = false) (inside : (off : Int) < c.nextOffset) (budget : 0 < maxBytes)
    (located : Located c.segments layout off i s base pre g post) (aimed : Aimed s off pre g) :
    ExactRegion c off maxBytes s pre g post := by
  obtain ⟨a, m, split, aim, direct⟩ := aimed
  have before := located_before located
  have file : s.logFile = bytesOf (pre ++ g :: post) ++ [] := by rw [List.append_nil]; exact located.holds.file
  obtain ⟨st, found, start⟩ := findStart_meets file aim (by rw [split])
    (fun h member => before h (by rw [split]; simp [member])) located.high
  rw [if_pos (direct.imp_right Int.ofNat_lt.mp), ← split] at start
  exact findRecords_from opened inside budget located found start rfl

theorem boundary_aimed (opened : c.isClosed = false) (inside : (off : Int) < c.nextOffset) (budget : 0 < maxBytes)
    (located : Located c.segments layout off i s base pre g post) {n : Nat} (short : n < (pre ++ g :: post).length)
    (aim : s.offsetIndex.lookup off = (bytesOf ((pre ++ g :: post).take n)).length)
    (exact_region : ExactRegion c off maxBytes s pre g post) : Aimed s off pre g := by
  obtain ⟨p, h, q, st, split, found, start, aimed⟩ := findStart_stops located.holds.file short aim
    (located_before located) located.high (located_after located)
  obtain ⟨size, answer, _⟩ := exact_region
  obtain ⟨size', answer', _⟩ := findRecords_from opened inside budget located found start split
  rw [answer'] at answer
  exact aimed (Int.ofNat.inj (congrArg RecordsRegion.fileOffset (Option.some.inj (Except.ok.inj answer))))

variable {fs : List StoredBatch} {last : Nat} {marks : List Nat}

theorem entry_batch (chain : Chained base fs last) (span : ∀ h ∈ fs, h.base < base + 2 ^ 32)
    (indexed : Indexed s.offsetIndex base fs marks) {k m : Nat} (mark : marks[k]? = some m) :
    ∃ h, fs[m]? = some h ∧ m < fs.length ∧ s.offsetIndex.entryOffset k + base = h.base ∧
      s.offsetIndex.entryPosition k = (bytesOf (fs.take m)).length % 2 ^ 32 := by
  obtain ⟨h, rest, split, inside, offset, position⟩ := indexed.entry k m mark
  have at_m : fs[m]? = some h := by
    rw [split, List.getElem?_append_right (by simp), List.length_take, Nat.min_eq_left (by omega), Nat.sub_self]
    rfl
  have member := List.mem_of_getElem? at_m
  have bounds := chained_mem chain member
  have near := span h member
  refine ⟨h, at_m, inside, ?_, position⟩
  rw [offset, Nat.mod_eq_of_lt (by omega)]
  omega

theorem entry_mark (indexed : Indexed s.offsetIndex base fs marks) {k : Nat} (below : k < s.offsetIndex.entryCount) :
    ∃ m, marks[k]? = some m :=
  ⟨_, List.getElem?_eq_getElem (by rw [indexed.count]; exact below)⟩

theorem marks_lt (indexed : Indexed s.offsetIndex base fs marks) {k l m n : Nat} (first : marks[k]? = some m)
    (second : marks[l]? = some n) (order : k < l) : m < n := by
  obtain ⟨inside, rfl⟩ := List.getElem?_eq_some_iff.mp first
  obtain ⟨inside', rfl⟩ := List.getElem?_eq_some_iff.mp second
  exact List.pairwise_iff_getElem.mp indexed.increasing k l inside inside' order

theorem entries_increasing (chain : Chained base fs last) (span : ∀ h ∈ fs, h.base < base + 2 ^ 32)
    (indexed : Indexed s.offsetIndex base fs marks) :
    ∀ k l, k < l → l < s.offsetIndex.entryCount → s.offsetIndex.entryOffset k < s.offsetIndex.entryOffset l := by
  intro k l order below
  obtain ⟨m, first⟩ := entry_mark indexed (Nat.lt_trans order below)
  obtain ⟨n, second⟩ := entry_mark indexed below
  obtain ⟨f, at_m, _, offset, _⟩ := entry_batch chain span indexed first
  obtain ⟨h, at_n, _, offset', _⟩ := entry_batch chain span indexed second
  have ordered := chained_order chain at_m at_n (marks_lt indexed first second order)
  have positive := f.positive
  omega

theorem lookup_first (holds : s.Holds base fs) (chain : Chained base fs last)
    (span : ∀ h ∈ fs, h.base < base + 2 ^ 32) : s.offsetIndex.lookup base = 0 := by
  obtain ⟨marks, indexed⟩ := holds.indexed
  have increasing := entries_increasing chain span indexed
  have indexBase := holds.indexBase
  obtain ⟨k, inside, floor⟩ := exists_floor
    (fun k => (s.offsetIndex.entryOffset k : Int) ≤ base - s.offsetIndex.baseOffset) s.offsetIndex.entryCount
    (fun k l order below upper => by have := increasing k l order below; omega)
  have near : s.offsetIndex.relativeOffset base = base - s.offsetIndex.baseOffset :=
    OffsetIndex.relativeOffset_near (by omega) (by omega)
  rw [OffsetIndex.lookup_floor inside increasing (near ▸ floor)]
  split
  · rfl
  · rename_i marks_below
    obtain ⟨m, marked⟩ := entry_mark indexed (k := k - 1) (by omega)
    obtain ⟨h, at_m, short, offset, position⟩ := entry_batch chain span indexed marked
    have low := (floor (k - 1) (by omega)).mpr (by omega)
    have first : m = 0 := by
      by_contra later
      have start : fs[0]? = some (fs.get ⟨0, by omega⟩) := List.getElem?_eq_getElem _
      have ordered := chained_order chain start at_m (by omega)
      have positive := (fs.get ⟨0, by omega⟩).positive
      have bounds := chained_mem chain (List.mem_of_getElem? start)
      omega
    rw [position, first]
    rfl

theorem located_near (located : Located c.segments layout off i s base pre g post)
    (span : ∀ h ∈ pre ++ g :: post, h.base < base + 2 ^ 32) :
    s.offsetIndex.relativeOffset off = off - s.offsetIndex.baseOffset := by
  obtain ⟨last, chain⟩ := located.chain
  have here : g ∈ pre ++ g :: post := by simp
  have close := span g here
  have few := g.countFits
  have start := (chained_mem chain here).1
  have low := located.low
  have high := located.high
  have indexBase := located.holds.indexBase
  exact OffsetIndex.relativeOffset_near (by omega) (by omega)

theorem located_mark (located : Located c.segments layout off i s base pre g post)
    (span : ∀ h ∈ pre ++ g :: post, h.base < base + 2 ^ 32)
    (indexed : Indexed s.offsetIndex base (pre ++ g :: post) marks) {l : Nat} (below : l < s.offsetIndex.entryCount)
    (entry : (s.offsetIndex.entryOffset l : Int) + s.baseOffset = g.base) : marks[l]? = some pre.length := by
  obtain ⟨last, chain⟩ := located.chain
  have here : (pre ++ g :: post)[pre.length]? = some g := by simp
  have based := located.holds.based
  obtain ⟨m, marked⟩ := entry_mark indexed below
  obtain ⟨f, at_m, _, offset, _⟩ := entry_batch chain span indexed marked
  rcases Nat.lt_trichotomy m pre.length with before | same | after
  · have ordered := chained_order chain at_m here before
    have positive := f.positive
    omega
  · rw [marked, same]
  · have ordered := chained_order chain here at_m after
    have positive := g.positive
    omega

/-- The lookup yields the last marked batch up to `g`, and that is `g` if `g` has an entry or is first. -/
theorem lookup_marked (located : Located c.segments layout off i s base pre g post)
    (small : s.logFile.length < 2 ^ 32) (span : ∀ h ∈ pre ++ g :: post, h.base < base + 2 ^ 32) :
    ∃ n ≤ pre.length, s.offsetIndex.lookup off = (bytesOf ((pre ++ g :: post).take n)).length ∧
      (n = pre.length ↔ pre = [] ∨
        ∃ k < s.offsetIndex.entryCount, (s.offsetIndex.entryOffset k : Int) + s.baseOffset = g.base) := by
  obtain ⟨last, chain⟩ := located.chain
  obtain ⟨marks, indexed⟩ := located.holds.indexed
  have here : (pre ++ g :: post)[pre.length]? = some g := by simp
  have low := located.low
  have high := located.high
  have based := located.holds.based
  have indexBase := located.holds.indexBase
  have increasing := entries_increasing chain span indexed
  obtain ⟨k, inside, floor⟩ := exists_floor
    (fun k => (s.offsetIndex.entryOffset k : Int) ≤ off - s.offsetIndex.baseOffset) s.offsetIndex.entryCount
    (fun k l order below upper => by have := increasing k l order below; omega)
  have looked := OffsetIndex.lookup_floor inside increasing (located_near located span ▸ floor)
  -- An entry of `g` is at or below `off`, so it is among the first `k`.
  have own : ∀ l < s.offsetIndex.entryCount, (s.offsetIndex.entryOffset l : Int) + s.baseOffset = g.base → l < k :=
    fun l below entry => (floor l below).mp (by omega)
  by_cases none : k = 0
  · refine ⟨0, Nat.zero_le _, by rw [looked, if_pos none]; rfl, ?_⟩
    constructor
    · intro empty
      exact Or.inl (List.length_eq_zero_iff.mp empty.symm)
    · rintro (empty | ⟨l, below, entry⟩)
      · rw [empty]
        rfl
      · have := own l below entry
        omega
  · obtain ⟨m, marked⟩ := entry_mark indexed (k := k - 1) (by omega)
    obtain ⟨f, at_m, short, offset, position⟩ := entry_batch chain span indexed marked
    have shorter := bytesOf_take_lt short short
    rw [List.take_length, ← located.holds.file] at shorter
    rw [Nat.mod_eq_of_lt (by omega)] at position
    have below := (floor (k - 1) (by omega)).mpr (by omega)
    have reach : m ≤ pre.length := by
      by_contra beyond
      have ordered := chained_order chain here at_m (by omega)
      omega
    refine ⟨m, reach, by rw [looked, if_neg none, position], ?_⟩
    constructor
    · intro same
      subst same
      rw [here] at at_m
      obtain rfl := Option.some.inj at_m
      exact Or.inr ⟨k - 1, by omega, by omega⟩
    · rintro (empty | ⟨l, inside, entry⟩)
      · rw [empty] at reach ⊢
        simp only [List.length_nil] at reach ⊢
        omega
      · have first := own l inside entry
        have marked_l := located_mark located span indexed inside entry
        rcases Nat.lt_or_ge l (k - 1) with before | same
        · have order := marks_lt indexed marked_l marked before
          omega
        · obtain rfl : l = k - 1 := by omega
          rw [marked] at marked_l
          exact Option.some.inj marked_l

/-- When the relative offsets fit an entry, the scan is aimed right exactly if it can start at `g` or
does not need to. -/
theorem aimed_iff (located : Located c.segments layout off i s base pre g post) (small : s.logFile.length < 2 ^ 32)
    (span : ∀ h ∈ pre ++ g :: post, h.base < base + 2 ^ 32) :
    Aimed s off pre g ↔ (off : Int) ≠ g.base ∨ pre = [] ∨
      ∃ k < s.offsetIndex.entryCount, (s.offsetIndex.entryOffset k : Int) + s.baseOffset = g.base := by
  obtain ⟨n, reach, aim, direct⟩ := lookup_marked located small span
  have low := located.low
  have taken : (pre ++ g :: post).take n = pre.take n := List.take_append_of_le_length reach
  rw [← direct]
  constructor
  · rintro ⟨a, m, split, aim', rfl | above⟩
    · right
      rw [List.append_nil] at split
      by_contra shorter
      have less : (bytesOf (pre.take n)).length < (bytesOf (pre.take pre.length)).length :=
        bytesOf_take_lt (by omega) (by omega)
      rw [List.take_length] at less
      rw [aim, taken, ← split] at aim'
      omega
    · left
      omega
  · rintro (above | same)
    · exact ⟨pre.take n, pre.drop n, (List.take_append_drop n pre).symm, by rw [aim, taken], Or.inr (by omega)⟩
    · exact ⟨pre, [], (List.append_nil pre).symm, by rw [aim, same, List.take_left], Or.inl rfl⟩

end Exactness

/-- Every offset of a built log lies in one batch of one segment, and the region found for it is exact
when the index sends the scan to that batch, or to an earlier one and the offset is not the base offset of
the batch. In a segment file below four gigabytes it is exact only then. While the relative offsets fit
the 32 bits of an index entry, this leaves out just the fetches at the base offset of a batch that is not
the first of its segment and has no index entry. -/
theorem findRecords_exact_iff {c : CommitLog} (built : Built c layout) (off maxBytes : Int)
    (low : c.oldestOffset ≤ off) (high : off < c.nextOffset) (budget : 0 < maxBytes) :
    ∃ (i : Nat) (s : Segment) (pre : List StoredBatch) (g : StoredBatch) (post : List StoredBatch),
      c.segments[i]? = some s ∧ layout[i]? = some (pre ++ g :: post) ∧
      (g.base : Int) ≤ off ∧ off < g.base + g.count ∧
      (Aimed s off pre g → ExactRegion c off maxBytes s pre g post) ∧
      (s.logFile.length < 2 ^ 32 → ExactRegion c off maxBytes s pre g post → Aimed s off pre g) ∧
      (s.logFile.length < 2 ^ 32 → (∀ h ∈ pre ++ g :: post, (h.base : Int) < s.baseOffset + 2 ^ 32) →
        (Aimed s off pre g ↔ off ≠ g.base ∨ pre = [] ∨
          ∃ k < s.offsetIndex.entryCount, (s.offsetIndex.entryOffset k : Int) + s.baseOffset = g.base)) := by
  obtain ⟨next, holds⟩ := built_holds built
  have oldest := oldestOffset_holds holds
  obtain ⟨n, rfl⟩ : ∃ n : Nat, off = n := ⟨off.toNat, by omega⟩
  have upper := holds.next
  obtain ⟨i, s, base, pre, g, post, located⟩ := linked_locate holds.linked (Nat.zero_le n) (by omega)
  have lower := located.low
  have above := located.high
  refine ⟨i, s, pre, g, post, located.found, located.batches, by omega, by omega,
    aimed_exact holds.opened high budget located, ?_, ?_⟩
  · intro small exact_region
    obtain ⟨m, short, aim⟩ := lookup_boundary located.holds (by simp) small n
    exact boundary_aimed holds.opened high budget located short aim exact_region
  · intro small span
    refine aimed_iff located small fun h member => ?_
    have near := span h member
    rw [located.holds.based] at near
    omega

def oneRecord : Batch := .ofBytes (beBytes 8 0 ++ beBytes 4 49 ++ beBytes 45 0 ++ beBytes 4 1) 1 (by decide +kernel)

def twoRecordLog : CommitLog :=
  let c := newCommitLog ⟨1000, 4096⟩ []
  ((c.appendRaw oneRecord.data oneRecord.count).1.appendRaw oneRecord.data oneRecord.count).1

def twoRecordLayout : List (List StoredBatch) :=
  [[oneRecord.storedAt 0 (by decide), oneRecord.storedAt 1 (by decide)]]

theorem twoRecordLog_built : Built twoRecordLog twoRecordLayout := by
  have empty : Built (newCommitLog ⟨1000, 4096⟩ []) [[]] := .empty _ (by decide) (by decide)
  have zero : (newCommitLog ⟨1000, 4096⟩ []).nextOffset = (0 : Nat) := by decide +kernel
  have first := Built.append empty oneRecord zero (by decide)
  have one : (((newCommitLog ⟨1000, 4096⟩ []).appendRaw oneRecord.data oneRecord.count).1).nextOffset =
      (1 : Nat) := by decide +kernel
  exact Built.append first oneRecord one (by decide)

/-- The first batch starts its file, and the region found for it is exact. -/
theorem findRecords_exact_first : ∃ first second, twoRecordLayout = [[first, second]] ∧
    Aimed twoRecordLog.activeSegment 0 [] first ∧
    ExactRegion twoRecordLog 0 10 twoRecordLog.activeSegment [] first [second] := by
  obtain ⟨first, second, layout, base⟩ : ∃ first second, twoRecordLayout = [[first, second]] ∧ second.base = 1 :=
    ⟨_, _, rfl, rfl⟩
  obtain ⟨i, s, pre, g, post, found, batches, low, _, exact_region, _, aimed⟩ :=
    findRecords_exact_iff twoRecordLog_built 0 10 (by decide +kernel) (by decide +kernel) (by decide)
  have single : twoRecordLog.segments = [twoRecordLog.activeSegment] := rfl
  rw [single, List.getElem?_singleton] at found
  rw [layout, List.getElem?_singleton] at batches
  split at found
  · rename_i only
    rw [if_pos only] at batches
    obtain rfl := Option.some.inj found
    have parts : [first, second] = pre ++ g :: post := Option.some.inj batches
    have start : pre = [] := by
      match pre, parts with
      | [], _ => rfl
      | [_], parts =>
        obtain ⟨_, rest⟩ := List.cons.inj parts
        rw [← (List.cons.inj rest).1, base] at low
        cases low
      | _ :: _ :: _, parts =>
        have lengths := congrArg List.length parts
        simp only [List.length_cons, List.length_append, List.length_nil] at lengths
        omega
    subst start
    obtain ⟨rfl, rest⟩ := List.cons.inj parts
    have near : ∀ h ∈ [] ++ first :: post, (h.base : Int) < twoRecordLog.activeSegment.baseOffset + 2 ^ 32 := by
      rw [List.nil_append, ← rest]
      have small : ∀ fs ∈ twoRecordLayout, ∀ h ∈ fs, (h.base : Int) <
        twoRecordLog.activeSegment.baseOffset + 2 ^ 32 := by
        decide +kernel
      exact small _ (by rw [layout]; exact List.mem_cons_self)
    have reaches := (aimed (by decide +kernel) near).mpr (.inr (.inl rfl))
    exact ⟨first, second, layout, reaches, rest ▸ exact_region reaches⟩
  · cases found

/-- Offset 1 starts the second batch, at byte 61, and the region found for it is the first batch. -/
theorem findRecords_boundary_early : Built twoRecordLog twoRecordLayout ∧ twoRecordLog.oldestOffset = 0 ∧
    twoRecordLog.nextOffset = 2 ∧ ∃ region, twoRecordLog.findRecords 1 10 = .ok (some region) ∧
      region.fileOffset = 0 ∧ region.size = 61 ∧
      ∃ first second, twoRecordLayout = [[first, second]] ∧ second.base = 1 ∧ first.length = 61 := by
  refine ⟨twoRecordLog_built, by decide +kernel, by decide +kernel, ⟨_, 0, 61, _, _⟩, by rfl, rfl, rfl,
    _, _, rfl, rfl, by decide⟩

end KafGo.Storage
