import KafGo.Storage.CommitLog

/-!
# The layout of a log

What the bytes of a log mean: each segment file is a run of stored batches, the batches carry
contiguous offsets, and each segment starts where the one before it ends. Appends and reopening keep a
log in this shape.
-/

namespace KafGo.Storage
open Lib

def bytesOf (fs : List StoredBatch) : Bytes := fs.flatMap (fun f => f.data)

@[simp] theorem bytesOf_nil : bytesOf [] = [] := rfl

@[simp] theorem bytesOf_cons (f : StoredBatch) (fs : List StoredBatch) :
    bytesOf (f :: fs) = f.data ++ bytesOf fs := List.flatMap_cons

@[simp] theorem bytesOf_append (fs gs : List StoredBatch) :
    bytesOf (fs ++ gs) = bytesOf fs ++ bytesOf gs := List.flatMap_append

theorem length_bytesOf (fs : List StoredBatch) :
    (bytesOf fs).length = (fs.map StoredBatch.length).sum := by
  induction fs with
  | nil => rfl
  | cons f fs ih => simp [ih, StoredBatch.length]

theorem length_le_bytesOf (fs : List StoredBatch) : fs.length ≤ (bytesOf fs).length := by
  induction fs with
  | nil => simp
  | cons f fs ih =>
    have long := f.long
    simp only [bytesOf_cons, List.length_append, List.length_cons]
    omega

variable {f : StoredBatch} {fs gs : List StoredBatch} {b e base : Nat} {tail : Bytes}

theorem storedBatch_ext {g : StoredBatch} (same : f.data = g.data) : f = g := by
  have count : f.count = g.count := by rw [← f.counted, ← g.counted, same]
  have base : f.base = g.base := by rw [← f.based, ← g.based, same]
  obtain ⟨⟨data, _⟩, _⟩ := f
  obtain ⟨⟨data', _⟩, _⟩ := g
  cases same
  cases count
  cases base
  rfl

/-- The declared lengths tell batches apart that stand one behind the other. -/
theorem bytesOf_injective (same : bytesOf fs = bytesOf gs) : fs = gs := by
  induction fs generalizing gs with
  | nil =>
    have bound := length_le_bytesOf gs
    rw [← same, bytesOf_nil, List.length_nil] at bound
    exact (List.length_eq_zero_iff.mp (by omega)).symm
  | cons f fs ih =>
    cases gs with
    | nil =>
      have bound := length_le_bytesOf (f :: fs)
      rw [same, bytesOf_nil, List.length_cons, List.length_nil] at bound
      omega
    | cons g gs =>
      have long := f.long
      have long' := g.long
      rw [bytesOf_cons, bytesOf_cons] at same
      have declared : uint32At (f.data ++ bytesOf fs) offsetBatchLength =
        uint32At (g.data ++ bytesOf gs) offsetBatchLength :=
        by rw [same]
      rw [uint32At_append (by simp only [offsetBatchLength]; omega),
        uint32At_append (by simp only [offsetBatchLength]; omega), f.batchLength, g.batchLength] at declared
      obtain ⟨head, tail⟩ := List.append_inj same (by omega)
      rw [storedBatch_ext head, ih tail]

/-- Batches with contiguous offsets from `b` up to `e`. -/
def Chained : Nat → List StoredBatch → Nat → Prop
  | b, [], e => b = e
  | b, f :: fs, e => f.base = b ∧ Chained (b + f.count) fs e

theorem chained_append :
    Chained b (fs ++ gs) e ↔ ∃ m, Chained b fs m ∧ Chained m gs e := by
  induction fs generalizing b with
  | nil => simp [Chained]
  | cons f fs ih =>
    simp only [List.cons_append, Chained, ih]
    constructor
    · rintro ⟨base, m, first, second⟩
      exact ⟨m, ⟨base, first⟩, second⟩
    · rintro ⟨m, ⟨base, first⟩, second⟩
      exact ⟨base, m, first, second⟩

theorem chained_le (chain : Chained b fs e) :
    b + fs.length ≤ e := by
  induction fs generalizing b with
  | nil => simpa [Chained] using Nat.le_of_eq chain
  | cons f fs ih =>
    obtain ⟨_, rest⟩ := chain
    have positive := f.positive
    have next := ih rest
    simp only [List.length_cons]
    omega

theorem chained_mem (chain : Chained b fs e) (member : f ∈ fs) : b ≤ f.base ∧ f.base + f.count ≤ e := by
  induction fs generalizing b with
  | nil => cases member
  | cons g fs ih =>
    obtain ⟨base, rest⟩ := chain
    have bound := chained_le rest
    rcases List.mem_cons.mp member with rfl | later
    · omega
    · have inner := ih rest later
      omega

theorem chained_unique {e' : Nat} (chain : Chained b fs e) (other : Chained b fs e') : e = e' := by
  induction fs generalizing b with
  | nil => exact Eq.trans (Eq.symm chain) other
  | cons f fs ih => exact ih chain.2 other.2

theorem chained_order {m n : Nat} {h : StoredBatch} (chain : Chained b fs e) (first : fs[m]? = some f)
    (second : fs[n]? = some h) (order : m < n) : f.base + f.count ≤ h.base := by
  induction fs generalizing b m n with
  | nil => simp at first
  | cons g fs ih =>
    obtain ⟨base, rest⟩ := chain
    obtain ⟨n, rfl⟩ : ∃ k, n = k + 1 := ⟨n - 1, by omega⟩
    cases m with
    | zero =>
      obtain rfl : g = f := Option.some.inj first
      have inside := chained_mem rest (List.mem_of_getElem? second)
      omega
    | succ m => exact ih rest first second (by omega)

theorem chained_locate {off : Nat} (chain : Chained b fs e) (lower : b ≤ off) (upper : off < e) :
    ∃ pre g post, fs = pre ++ g :: post ∧ g.base ≤ off ∧ off < g.base + g.count ∧
      ∀ f ∈ pre, f.base + f.count ≤ g.base := by
  induction fs generalizing b with
  | nil =>
    have : b = e := chain
    omega
  | cons f fs ih =>
    obtain ⟨base, rest⟩ := chain
    by_cases here : off < f.base + f.count
    · exact ⟨[], f, fs, rfl, by omega, here, by simp⟩
    · obtain ⟨pre, g, post, split, low, high, before⟩ := ih rest (by omega)
      refine ⟨f :: pre, g, post, by rw [split]; rfl, low, high, ?_⟩
      intro h member
      rcases List.mem_cons.mp member with rfl | later
      · have inside := chained_mem rest (f := g) (by rw [split]; simp)
        omega
      · exact before h later

theorem chained_count (chain : Chained b fs e) :
    e = b + (fs.map (fun f => f.count)).sum := by
  induction fs generalizing b with
  | nil => exact Eq.symm chain
  | cons f fs ih =>
    rw [List.map_cons, List.sum_cons, ← Nat.add_assoc]
    exact ih chain.2

theorem chained_cut {m : Nat} {p q p' q' : List StoredBatch} (whole : p ++ q = p' ++ q') (first : Chained b p m)
    (second : Chained b p' m) : p = p' ∧ q = q' := by
  have same : p.length = p'.length := by
    have shorter : ∀ {r t r' t' : List StoredBatch}, r ++ t = r' ++ t' → Chained b r m → Chained b r' m →
        ¬ r.length < r'.length := by
      intro r t r' t' eq chained chained' less
      obtain ⟨extra, rfl⟩ : ∃ extra, r' = r ++ extra := by
        have cut := congrArg (List.take r'.length) eq
        rw [List.take_left, List.take_append, List.take_of_length_le (Nat.le_of_lt less)] at cut
        exact ⟨_, cut.symm⟩
      obtain ⟨n, left, right⟩ := chained_append.mp chained'
      obtain rfl := chained_unique left chained
      have bound := chained_le right
      rw [List.length_append] at less
      omega
    have one := shorter whole first second
    have two := shorter whole.symm second first
    omega
  exact List.append_inj whole same

/-- The index marks: `marks i` is the number of the batch that entry `i` points at. -/
structure Indexed (idx : OffsetIndex) (base : Nat) (fs : List StoredBatch) (marks : List Nat) : Prop where
  count : marks.length = idx.entryCount
  increasing : marks.Pairwise (· < ·)
  entry : ∀ i m, marks[i]? = some m → ∃ g post, fs = fs.take m ++ g :: post ∧ m < fs.length ∧
    idx.entryOffset i = (g.base - base) % 2 ^ 32 ∧
    idx.entryPosition i = (bytesOf (fs.take m)).length % 2 ^ 32

structure Segment.Holds (s : Segment) (base : Nat) (fs : List StoredBatch) : Prop where
  based : s.baseOffset = base
  file : s.logFile = bytesOf fs
  size : s.currentSize = s.logFile.length
  indexBase : s.offsetIndex.baseOffset = base
  mapped : s.offsetIndex.Mapped
  indexed : ∃ marks, Indexed s.offsetIndex base fs marks

theorem newSegment_holds {config : CommitLogConfig} {files : SegmentFiles} (based : files.baseOffset = base)
    (file : files.log = bytesOf fs) (whole : files.index.size = 0 ∨ entrySize ≤ files.index.size) :
    (newSegment config files).Holds base fs where
  based := based
  file := file
  size := rfl
  indexBase := by
    simp only [newSegment, newOffsetIndex]
    split <;> exact based
  mapped := OffsetIndex.newOffsetIndex_mapped whole _
  indexed := by
    refine ⟨[], ?_, List.Pairwise.nil, fun i m found => by simp at found⟩
    simp only [newSegment, newOffsetIndex]
    split <;> rfl

theorem close_whole (idx : OffsetIndex) : idx.close.size = 0 ∨ entrySize ≤ idx.close.size := by
  simp only [OffsetIndex.close, entrySize]
  omega

theorem indexed_append {idx : OffsetIndex} {marks : List Nat} (indexed : Indexed idx base fs marks) :
    Indexed idx base (fs ++ gs) marks where
  count := indexed.count
  increasing := indexed.increasing
  entry := by
    intro i m found
    obtain ⟨g, post, split, inside, offset, position⟩ := indexed.entry i m found
    have kept : (fs ++ gs).take m = fs.take m := List.take_append_of_le_length (by omega)
    refine ⟨g, post ++ gs, ?_, by simp; omega, offset, by rw [kept]; exact position⟩
    rw [kept]
    nth_rewrite 1 [split]
    simp

/-- Appending a run of batches that continues the segment, as leaders do one at a time and followers
in groups. -/
theorem segment_append_holds {s : Segment} (holds : s.Holds base fs) (g : StoredBatch) (gs : List StoredBatch)
    (data : Bytes) (chainLow : base ≤ g.base) (long : 8 ≤ data.length)
    (patched : putBaseOffset g.base data = bytesOf (g :: gs)) :
    ∃ s', s.appendRaw g.base data = (s', .ok ()) ∧ s'.Holds base (fs ++ g :: gs) ∧
      s'.maxBytes = s.maxBytes ∧ s'.indexInterval = s.indexInterval := by
  obtain ⟨sBase, file, size, indexBase, mapped, marks, indexed⟩ := holds
  unfold Segment.appendRaw
  rw [if_neg (by omega)]
  simp only [patched]
  by_cases wanted : s.offsetIndex.entryCount = 0 ∨
      (s.logFile.length : Int) - s.lastIndexedPosition ≥ s.indexInterval
  · rw [if_pos wanted]
    obtain ⟨idx, appended, mapped', base', count', offset', position', others⟩ :=
      OffsetIndex.append_ok mapped g.base s.logFile.length
    rw [appended]
    refine ⟨_, rfl, ⟨sBase, by simp [file], ?_, by rw [← indexBase]; exact base', mapped', ?_⟩, rfl, rfl⟩
    · simp only [List.length_append, size]
      omega
    · refine ⟨marks ++ [fs.length], by simp [indexed.count, count'], ?_, ?_⟩
      · rw [List.pairwise_append]
        refine ⟨indexed.increasing, List.pairwise_singleton _ _, ?_⟩
        intro m member n last
        obtain ⟨i, found⟩ := List.getElem?_of_mem member
        obtain ⟨_, _, _, inside, _⟩ := indexed.entry i m found
        rw [List.mem_singleton.mp last]
        exact inside
      · intro i m found
        by_cases older : i < marks.length
        · rw [List.getElem?_append_left older] at found
          obtain ⟨h, post, split, inside, offset, position⟩ :=
            (indexed_append indexed : Indexed s.offsetIndex base (fs ++ g :: gs) marks).entry i m found
          obtain ⟨sameOffset, samePosition⟩ := others i (by rw [← indexed.count]; exact older)
          exact ⟨h, post, split, inside, by rw [sameOffset]; exact offset,
            by rw [samePosition]; exact position⟩
        · rw [List.getElem?_append_right (by omega)] at found
          have first : i = marks.length := by
            by_contra apart
            rw [List.getElem?_eq_none (by simp; omega)] at found
            cases found
          subst first
          simp only [Nat.sub_self, List.getElem?_cons_zero, Option.some.injEq] at found
          subst found
          refine ⟨g, gs, by simp, by simp, ?_, ?_⟩
          · rw [indexed.count]
            dsimp only
            rw [offset', indexBase, show (g.base : Int) - base = ((g.base - base : Nat) : Int) by omega,
              unsigned_natCast]
          · rw [indexed.count]
            dsimp only
            rw [position', unsigned_natCast, file, List.take_left]
  · rw [if_neg wanted]
    refine ⟨_, rfl, ⟨sBase, by simp [file], ?_, indexBase, mapped, marks, indexed_append indexed⟩, rfl, rfl⟩
    simp only [List.length_append, size]
    omega

section Headers

variable {fs pre post : List StoredBatch} {f : StoredBatch}

theorem read_field (before tail : Bytes) (split : fs = pre ++ f :: post) {k n : Nat} (inside : k + n ≤ 61) :
    readAt (before ++ bytesOf fs ++ tail)
      ((before.length : Int) + ((pre.map StoredBatch.length).sum : Nat) + k) n = some (slice f.data k n) := by
  have long := f.long
  have file : before ++ bytesOf fs ++ tail = (before ++ bytesOf pre) ++ f.data ++ (bytesOf post ++ tail) := by
    rw [split]
    simp
  have position : (before.length : Int) + ((pre.map StoredBatch.length).sum : Nat) + k =
      (((before ++ bytesOf pre).length + k : Nat) : Int) := by
    rw [List.length_append, length_bytesOf]
    omega
  rw [file, position, readAt_middle _ _ _ (by omega)]

theorem read_header (before tail : Bytes) (split : fs = pre ++ f :: post) {n : Nat} (inside : n ≤ 61) :
    readAt (before ++ bytesOf fs ++ tail)
      ((before.length : Int) + ((pre.map StoredBatch.length).sum : Nat)) n = some (slice f.data 0 n) := by
  have field := read_field before tail split (k := 0) (n := n) (by omega)
  simpa using field

theorem header_room (before tail : Bytes) (split : fs = pre ++ f :: post) :
    (before.length : Int) + ((pre.map StoredBatch.length).sum : Nat) + f.length ≤
      (before ++ bytesOf fs ++ tail).length := by
  rw [split]
  simp only [bytesOf_append, bytesOf_cons, List.length_append, length_bytesOf]
  unfold StoredBatch.length
  omega

end Headers

/-! ### The next offset of a segment -/

/-- Trailing bytes that no header walk takes for a batch. -/
def Incomplete (tail : Bytes) : Prop :=
  tail.length < headerSizeWithDelta ∨
    (tail.length < 12 + uint32At tail offsetBatchLength ∧ uint32At tail offsetBatchLength < 2 ^ 31)

theorem incomplete_nil : Incomplete [] := Or.inl (by decide)

theorem read_tail {before buf : Bytes} {n : Nat} (read : readAt (before ++ tail) (before.length : Int) n = some buf) :
    buf = slice tail 0 n ∧ n ≤ tail.length := by
  obtain ⟨_, inside, bytes⟩ := readAt_some read
  rw [List.length_append] at inside
  have start := slice_append_right before tail 0 n
  exact ⟨by rw [bytes, Int.toNat_natCast]; simpa using start, by omega⟩

/-- At the incomplete bytes both offset scans stop with what they have. -/
theorem incomplete_stops {before : Bytes} (torn : Incomplete tail) (acc : Int) :
    lastBaseOffsetTurn (before ++ tail) before.length acc = .stop acc ∧
      scanLastOffsetTurn (before ++ tail) before.length acc = .stop acc := by
  unfold lastBaseOffsetTurn scanLastOffsetTurn
  cases read : readAt (before ++ tail) before.length headerSizeWithDelta with
  | none => exact ⟨rfl, rfl⟩
  | some buf =>
    obtain ⟨bytes, inside⟩ := read_tail read
    rcases torn with short | ⟨beyond, small⟩
    · omega
    · have declared : uint32At buf offsetBatchLength = uint32At tail offsetBatchLength := by
        rw [bytes, uint32At_slice (by decide), Nat.zero_add]
      dsimp only
      rw [int32At, declared, signed_of_lt small, List.length_append]
      rw [if_pos (by omega), if_pos (by omega)]
      exact ⟨rfl, rfl⟩

theorem lastBaseOffsetTurn_batch (before tail : Bytes) {pre post : List StoredBatch} (split : fs = pre ++ f :: post)
    (acc : Int) :
    lastBaseOffsetTurn (before ++ bytesOf fs ++ tail)
      ((before.length : Int) + ((pre.map StoredBatch.length).sum : Nat)) acc = .next f.length f.base := by
  have room := header_room before tail split
  have long := f.length_pos
  unfold lastBaseOffsetTurn
  rw [read_header before tail split (by decide)]
  dsimp only
  rw [f.header_batchLength (by decide), f.header_baseOffset (by decide), if_neg (by omega)]
  congr 1
  omega

theorem scanLastOffsetTurn_batch (before tail : Bytes) {pre post : List StoredBatch} (split : fs = pre ++ f :: post)
    (acc : Int) :
    scanLastOffsetTurn (before ++ bytesOf fs ++ tail)
      ((before.length : Int) + ((pre.map StoredBatch.length).sum : Nat)) acc =
        .next f.length ((f.base + f.count : Nat) : Int) := by
  have room := header_room before tail split
  have long := f.length_pos
  have positive := f.positive
  have fits := f.fits
  unfold scanLastOffsetTurn
  rw [read_header before tail split (by decide)]
  dsimp only
  rw [f.header_totalLen (by decide), f.header_baseOffset (by decide), f.header_lastOffsetDelta (by decide),
    if_neg (by omega), show (f.base : Int) + (f.count - 1 : Nat) + 1 = ((f.base + f.count : Nat) : Int) by omega,
    wrapSigned_natCast (by decide) (by omega)]

theorem lastBaseOffset_walk (torn : Incomplete tail) {fuel : Nat} (enough : fs.length < fuel) :
    ∃ last, (fs = [] ∧ last = -1 ∨ fs ≠ [] ∧ 0 ≤ last) ∧
      walk .diverges headerSizeUpToMagic (bytesOf fs ++ tail).length (lastBaseOffsetTurn (bytesOf fs ++ tail))
        fuel 0 (-1) = .ok last := by
  obtain ⟨spare, rfl⟩ : ∃ spare, fuel = spare + 1 + fs.length := ⟨fuel - 1 - fs.length, by omega⟩
  obtain ⟨last, found, walked⟩ := walk_cross LogError.diverges headerSizeUpToMagic (bytesOf fs ++ tail).length 0
    (lastBaseOffsetTurn (bytesOf fs ++ tail)) (spare + 1) (-1) StoredBatch.length
    (fun pre last => pre = [] ∧ last = -1 ∨ pre ≠ [] ∧ 0 ≤ last) fs (Or.inl ⟨rfl, rfl⟩) (by
      intro pre f post last split _
      have room := header_room [] tail split
      have long := f.length_pos
      have turn := lastBaseOffsetTurn_batch [] tail split last
      simp only [List.nil_append, List.length_nil, Int.natCast_zero] at room turn
      exact ⟨by simp only [headerSizeUpToMagic]; omega, f.base, turn, Or.inr ⟨by simp, by omega⟩⟩)
  refine ⟨last, found, ?_⟩
  rw [walked, Int.zero_add, ← length_bytesOf]
  by_cases room : ((bytesOf fs).length : Int) + headerSizeUpToMagic ≤ (bytesOf fs ++ tail).length
  · exact walk_stop room (incomplete_stops torn last).1
  · exact walk_exit (by omega)

theorem scanLastOffset_walk (chain : Chained base fs e) (torn : Incomplete tail) {fuel : Nat}
    (enough : fs.length < fuel) :
    walk .diverges headerSizeWithDelta (bytesOf fs ++ tail).length (scanLastOffsetTurn (bytesOf fs ++ tail))
      fuel 0 base = .ok (e : Int) := by
  obtain ⟨spare, rfl⟩ : ∃ spare, fuel = spare + 1 + fs.length := ⟨fuel - 1 - fs.length, by omega⟩
  obtain ⟨next, found, walked⟩ := walk_cross LogError.diverges headerSizeWithDelta (bytesOf fs ++ tail).length 0
    (scanLastOffsetTurn (bytesOf fs ++ tail)) (spare + 1) base StoredBatch.length
    (fun pre next => ∃ m : Nat, next = m ∧ Chained base pre m) fs ⟨base, rfl, rfl⟩ (by
      intro pre f post next split ⟨m, _, chained⟩
      have room := header_room [] tail split
      have long := f.length_pos
      have turn := scanLastOffsetTurn_batch [] tail split next
      have starts : f.base = m := by
        rw [split, chained_append] at chain
        obtain ⟨m', first, based, _⟩ := chain
        rw [based]
        exact chained_unique first chained
      simp only [List.nil_append, List.length_nil, Int.natCast_zero] at room turn
      refine ⟨by simp only [headerSizeWithDelta]; omega, _, turn, f.base + f.count, rfl, ?_⟩
      rw [chained_append]
      exact ⟨m, chained, starts, by rw [starts]; rfl⟩)
  obtain ⟨m, rfl, chained⟩ := found
  rw [walked, Int.zero_add, ← length_bytesOf, chained_unique chained chain]
  by_cases room : ((bytesOf fs).length : Int) + headerSizeWithDelta ≤ (bytesOf fs ++ tail).length
  · exact walk_stop room (incomplete_stops torn _).2
  · exact walk_exit (by omega)

/-- The next offset recomputed from a file is the end of its last complete batch. -/
theorem nextOffset_of_file {s : Segment} (based : s.baseOffset = base) (file : s.logFile = bytesOf fs ++ tail)
    (chain : Chained base fs e) (torn : Incomplete tail) : s.nextOffset = e := by
  have enough : fs.length < s.fuel := by
    have bound := length_le_bytesOf fs
    simp only [Segment.fuel, file, List.length_append]
    omega
  obtain ⟨last, found, walked⟩ := lastBaseOffset_walk torn enough
  unfold Segment.nextOffset Segment.scanLastOffset
  rw [file, walked, based, scanLastOffset_walk chain torn enough]
  dsimp only
  rcases found with ⟨empty, unset⟩ | ⟨_, nonneg⟩
  · subst empty
    have same : base = e := chain
    rw [if_pos (by omega), same]
  · rw [if_neg (by omega)]

end KafGo.Storage
