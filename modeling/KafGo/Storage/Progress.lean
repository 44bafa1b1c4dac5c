import KafGo.Protocol.RecordBatch
import KafGo.Storage.CommitLog

/-!
# The header scans on any bytes

`FindRawRegion` moves on by 12 plus a signed length from the file, which may be anything that a client put
there. The scan follows these lengths from the position in the index over the batches behind the fetch
offset, and the accumulation follows them from the batch where the scan stopped.
-/

namespace KafGo.Storage
open Lib

def lengthAt (file : Bytes) (pos : Int) : Int := int32At file (pos.toNat + offsetBatchLength)

def baseAt (file : Bytes) (pos : Int) : Int := int64At file pos.toNat

def lastAt (file : Bytes) (pos : Int) : Int :=
  wrapSigned 64 (baseAt file pos + int32At file (pos.toNat + offsetLastOffsetDelta))

/-- The batch of a header ends before the fetch offset. -/
structure Behind (file : Bytes) (fetchOffset pos : Int) : Prop where
  nonneg : 0 ≤ pos
  inside : pos + headerSizeWithDelta ≤ file.length
  base : baseAt file pos < fetchOffset
  last : lastAt file pos < fetchOffset

/-- The headers from the index position on, each after one that is behind, with the one before. -/
inductive Scanned (s : Segment) (fetchOffset : Int) : Option Int → Int → Prop where
  | first : Scanned s fetchOffset none (s.offsetIndex.lookup fetchOffset)
  | next {pre : Option Int} {pos : Int} (before : Scanned s fetchOffset pre pos)
      (behind : Behind s.logFile fetchOffset pos) :
      Scanned s fetchOffset (some pos) (pos + (12 + lengthAt s.logFile pos))

/-- Where the region starts: at the first batch that reaches the fetch offset or at the one before it. -/
inductive StartsAt (s : Segment) (fetchOffset : Int) : Int → Prop where
  | last {pre pos : Int} (scanned : Scanned s fetchOffset (some pre) pos)
      (past : s.logFile.length < pos + headerSizeUpToMagic) : StartsAt s fetchOffset pre
  | above {pre : Option Int} {pos : Int} (scanned : Scanned s fetchOffset pre pos) (nonneg : 0 ≤ pos)
      (inside : pos + headerSizeUpToMagic ≤ s.logFile.length) (reached : fetchOffset ≤ baseAt s.logFile pos) :
      StartsAt s fetchOffset (pre.getD pos)
  | within {pre : Option Int} {pos : Int} (scanned : Scanned s fetchOffset pre pos) (nonneg : 0 ≤ pos)
      (inside : pos + headerSizeWithDelta ≤ s.logFile.length) (below : baseAt s.logFile pos < fetchOffset)
      (reached : fetchOffset ≤ lastAt s.logFile pos) : StartsAt s fetchOffset pos

/-- The headers from the start of the region on, as long as the batches fit into `maxBytes`. -/
inductive Collected (file : Bytes) (maxBytes start : Int) : Int → Prop where
  | first : Collected file maxBytes start start
  | next {pos : Int} (before : Collected file maxBytes start pos) (nonneg : 0 ≤ pos)
      (inside : pos + headerSizeUpToMagic ≤ file.length)
      (fits : maxBytes ≤ 0 ∨ pos + (12 + lengthAt file pos) - start ≤ maxBytes) :
      Collected file maxBytes start (pos + (12 + lengthAt file pos))

/-- No header that the scan moves on from, and none that the accumulation reads, has a length of -12 or less. -/
structure Segment.LengthsPositive (s : Segment) (fetchOffset maxBytes : Int) : Prop where
  scanned : ∀ pre pos, Scanned s fetchOffset pre pos → Behind s.logFile fetchOffset pos → -12 < lengthAt s.logFile pos
  collected : ∀ start pos, StartsAt s fetchOffset start → Collected s.logFile maxBytes start pos → 0 ≤ pos →
    pos + headerSizeUpToMagic ≤ s.logFile.length → -12 < lengthAt s.logFile pos

def ScanState.start (st : ScanState) : Option Int :=
  if st.startPos < 0 then st.preMeta.map BatchMeta.filePos else some st.startPos

def Segment.Scans (s : Segment) (fetchOffset : Int) : Except LogError ScanState → Prop :=
  Ends headerSizeUpToMagic s.logFile.length (scanTurn s.logFile fetchOffset)
    (s.offsetIndex.lookup fetchOffset) ⟨-1, none⟩

def Segment.Sums (s : Segment) (maxBytes start : Int) : Except LogError Int → Prop :=
  Ends headerSizeUpToMagic s.logFile.length (accumulateTurn s.logFile maxBytes) start 0

/-- `FindRawRegion` returns. -/
inductive Segment.Finds (s : Segment) (fetchOffset maxBytes : Int) : Except LogError (Int × Int) → Prop where
  | unscanned {e : LogError} (scan : s.Scans fetchOffset (.error e)) : Finds s fetchOffset maxBytes (.error e)
  | nothing {st : ScanState} (scan : s.Scans fetchOffset (.ok st)) (empty : st.start = none) :
      Finds s fetchOffset maxBytes (.ok (0, 0))
  | region {st : ScanState} {start : Int} {sum : Except LogError Int} (scan : s.Scans fetchOffset (.ok st))
      (begins : st.start = some start) (sums : s.Sums maxBytes start sum) :
      Finds s fetchOffset maxBytes (sum.map fun size => if size = 0 then (0, 0) else (start, size))

/-- It returns, as the executable model does, and every turn of its loops moves forward or is the last. -/
structure Segment.Advances (s : Segment) (fetchOffset maxBytes : Int) : Prop where
  returns : s.Finds fetchOffset maxBytes (s.findRawRegion fetchOffset maxBytes)
  scan : Forward headerSizeUpToMagic s.logFile.length (scanTurn s.logFile fetchOffset)
    (s.offsetIndex.lookup fetchOffset) ⟨-1, none⟩
  accumulation : ∀ st start, s.Scans fetchOffset (.ok st) → st.start = some start →
    Forward headerSizeUpToMagic s.logFile.length (accumulateTurn s.logFile maxBytes) start 0

/-! ### One turn -/

section Turns

variable {file : Bytes} {fetchOffset maxBytes pos : Int}

theorem readBatchMeta17_ok (nonneg : 0 ≤ pos) (inside : pos + headerSizeUpToMagic ≤ file.length) :
    readBatchMeta17 file pos = .ok ⟨pos, baseAt file pos, 12 + lengthAt file pos⟩ := by
  obtain ⟨n, rfl⟩ := Int.eq_ofNat_of_zero_le nonneg
  unfold readBatchMeta17
  rw [readAt_ok (by exact_mod_cast inside)]
  simp only [baseAt, lengthAt, int64At, int32At, Int.toNat_natCast]
  rw [uint64At_slice (by decide), uint32At_slice (by decide)]
  rfl

theorem readBatchMeta17_negative (negative : pos < 0) : readBatchMeta17 file pos = .error (.readHeader pos) := by
  have missing : readAt file pos headerSizeUpToMagic = none := by
    cases read : readAt file pos headerSizeUpToMagic with
    | none => rfl
    | some buf =>
      have lower := (readAt_some read).1
      omega
  unfold readBatchMeta17
  rw [missing]

theorem readLastOffset_ok (nonneg : 0 ≤ pos) (inside : pos + headerSizeWithDelta ≤ file.length) (totalLen : Int) :
    readLastOffset file ⟨pos, baseAt file pos, totalLen⟩ = .ok (lastAt file pos) := by
  obtain ⟨n, rfl⟩ := Int.eq_ofNat_of_zero_le nonneg
  unfold readLastOffset
  have room : n + headerSizeUpToMagic + 10 ≤ file.length := by
    simp only [headerSizeUpToMagic, headerSizeWithDelta] at inside ⊢
    omega
  have read := readAt_ok room
  rw [Int.natCast_add] at read
  dsimp only
  rw [read]
  simp only [lastAt, int32At, Int.toNat_natCast]
  rw [uint32At_slice (by decide)]
  rfl

theorem readLastOffset_short (short : file.length < pos + headerSizeWithDelta) (baseOffset totalLen : Int) :
    readLastOffset file ⟨pos, baseOffset, totalLen⟩ = .error (.readLastOffsetDelta pos) := by
  have missing : readAt file (pos + headerSizeUpToMagic) 10 = none := by
    cases read : readAt file (pos + headerSizeUpToMagic) 10 with
    | none => rfl
    | some buf =>
      have bounds := readAt_some read
      simp only [headerSizeUpToMagic, headerSizeWithDelta] at short bounds
      omega
  unfold readLastOffset
  dsimp only
  rw [missing]

theorem scanTurn_behind (behind : Behind file fetchOffset pos) (st : ScanState) :
    scanTurn file fetchOffset pos st = .next (12 + lengthAt file pos)
      { st with preMeta := some ⟨pos, baseAt file pos, 12 + lengthAt file pos⟩ } := by
  have inside := behind.inside
  have base := behind.base
  have last := behind.last
  unfold scanTurn
  rw [readBatchMeta17_ok behind.nonneg (by simp only [headerSizeWithDelta, headerSizeUpToMagic] at inside ⊢; omega)]
  dsimp only
  rw [if_neg (by omega), readLastOffset_ok behind.nonneg inside]
  dsimp only
  rw [if_neg (by omega)]

theorem scanTurn_above (nonneg : 0 ≤ pos) (inside : pos + headerSizeUpToMagic ≤ file.length)
    (reached : fetchOffset ≤ baseAt file pos) (st : ScanState) : scanTurn file fetchOffset pos st =
      .stop { st with startPos := (st.preMeta.map BatchMeta.filePos).getD pos } := by
  unfold scanTurn
  rw [readBatchMeta17_ok nonneg inside]
  dsimp only
  rw [if_pos reached]
  cases st.preMeta <;> rfl

theorem scanTurn_within (nonneg : 0 ≤ pos) (inside : pos + headerSizeWithDelta ≤ file.length)
    (below : baseAt file pos < fetchOffset) (reached : fetchOffset ≤ lastAt file pos) (st : ScanState) :
    scanTurn file fetchOffset pos st = .stop { st with startPos := pos } := by
  unfold scanTurn
  rw [readBatchMeta17_ok nonneg (by simp only [headerSizeWithDelta, headerSizeUpToMagic] at inside ⊢; omega)]
  dsimp only
  rw [if_neg (by omega), readLastOffset_ok nonneg inside]
  dsimp only
  rw [if_pos reached]

/-- All that a turn of the scan can do at a header that is in the file. -/
theorem scanTurn_cases (inside : pos + headerSizeUpToMagic ≤ file.length) (st : ScanState) :
    (∃ e, scanTurn file fetchOffset pos st = .fail e) ∨
      (0 ≤ pos ∧ fetchOffset ≤ baseAt file pos ∧ scanTurn file fetchOffset pos st =
        .stop { st with startPos := (st.preMeta.map BatchMeta.filePos).getD pos }) ∨
      (0 ≤ pos ∧ pos + headerSizeWithDelta ≤ file.length ∧ baseAt file pos < fetchOffset ∧
        fetchOffset ≤ lastAt file pos ∧ scanTurn file fetchOffset pos st = .stop { st with startPos := pos }) ∨
      (Behind file fetchOffset pos ∧ scanTurn file fetchOffset pos st = .next (12 + lengthAt file pos)
        { st with preMeta := some ⟨pos, baseAt file pos, 12 + lengthAt file pos⟩ }) := by
  by_cases nonneg : 0 ≤ pos
  · by_cases reached : fetchOffset ≤ baseAt file pos
    · exact .inr (.inl ⟨nonneg, reached, scanTurn_above nonneg inside reached st⟩)
    · have below := Int.not_le.mp reached
      by_cases long : pos + headerSizeWithDelta ≤ file.length
      · by_cases last : fetchOffset ≤ lastAt file pos
        · exact .inr (.inr (.inl ⟨nonneg, long, below, last, scanTurn_within nonneg long below last st⟩))
        · have behind : Behind file fetchOffset pos := ⟨nonneg, long, below, Int.not_le.mp last⟩
          exact .inr (.inr (.inr ⟨behind, scanTurn_behind behind st⟩))
      · refine .inl ⟨.readLastOffsetDelta pos, ?_⟩
        unfold scanTurn
        rw [readBatchMeta17_ok nonneg inside]
        dsimp only
        rw [if_neg reached, readLastOffset_short (Int.not_le.mp long)]
  · refine .inl ⟨.readHeader pos, ?_⟩
    unfold scanTurn
    rw [readBatchMeta17_negative (Int.not_le.mp nonneg)]

theorem scanTurn_next {st st' : ScanState} {len : Int} (moves : scanTurn file fetchOffset pos st = .next len st')
    (inside : pos + headerSizeUpToMagic ≤ file.length) : Behind file fetchOffset pos ∧
      len = 12 + lengthAt file pos ∧ st'.startPos = st.startPos ∧ st'.preMeta.map BatchMeta.filePos = some pos := by
  rcases scanTurn_cases inside st with ⟨_, turn⟩ | ⟨_, _, turn⟩ | ⟨_, _, _, _, turn⟩ | ⟨behind, turn⟩
  · cases turn.symm.trans moves
  · cases turn.symm.trans moves
  · cases turn.symm.trans moves
  · obtain ⟨rfl, rfl⟩ := Move.next.inj (turn.symm.trans moves)
    exact ⟨behind, rfl, rfl, rfl⟩

theorem scanTurn_stop {st st' : ScanState} (stops : scanTurn file fetchOffset pos st = .stop st')
    (inside : pos + headerSizeUpToMagic ≤ file.length) : 0 ≤ pos ∧
      ((fetchOffset ≤ baseAt file pos ∧ st'.startPos = (st.preMeta.map BatchMeta.filePos).getD pos) ∨
        (pos + headerSizeWithDelta ≤ file.length ∧ baseAt file pos < fetchOffset ∧ fetchOffset ≤ lastAt file pos ∧
          st'.startPos = pos)) := by
  rcases scanTurn_cases inside st with ⟨_, turn⟩ | ⟨nonneg, reached, turn⟩ | ⟨nonneg, long, below, last,
    turn⟩ | ⟨_, turn⟩
  · cases turn.symm.trans stops
  · obtain rfl := Move.stop.inj (turn.symm.trans stops)
    exact ⟨nonneg, .inl ⟨reached, rfl⟩⟩
  · obtain rfl := Move.stop.inj (turn.symm.trans stops)
    exact ⟨nonneg, .inr ⟨long, below, last, rfl⟩⟩
  · cases turn.symm.trans stops

theorem accumulateTurn_next {acc acc' len : Int} (moves : accumulateTurn file maxBytes pos acc = .next len acc')
    (inside : pos + headerSizeUpToMagic ≤ file.length) : 0 ≤ pos ∧ len = 12 + lengthAt file pos ∧ acc' = acc + len ∧
      (maxBytes ≤ 0 ∨ acc' ≤ maxBytes) := by
  unfold accumulateTurn at moves
  by_cases nonneg : 0 ≤ pos
  · rw [readBatchMeta17_ok nonneg inside] at moves
    dsimp only at moves
    split at moves
    · cases moves
    · split at moves
      · cases moves
      · obtain ⟨rfl, rfl⟩ := Move.next.inj moves
        exact ⟨nonneg, rfl, rfl, by omega⟩
  · rw [readBatchMeta17_negative (by omega)] at moves
    cases moves

theorem accumulateTurn_fits {acc : Int} (nonneg : 0 ≤ pos) (inside : pos + headerSizeUpToMagic ≤ file.length)
    (fits : maxBytes ≤ 0 ∨ acc + (12 + lengthAt file pos) ≤ maxBytes) : accumulateTurn file maxBytes pos acc =
      .next (12 + lengthAt file pos) (acc + (12 + lengthAt file pos)) := by
  unfold accumulateTurn
  rw [readBatchMeta17_ok nonneg inside]
  dsimp only
  rw [if_neg (by omega), if_neg (by omega)]

end Turns

/-! ### The headers that the loops get to -/

section Loops

variable {s : Segment} {fetchOffset maxBytes start pos : Int}

theorem visits_scanned {st : ScanState}
    (visits : Visits headerSizeUpToMagic s.logFile.length (scanTurn s.logFile fetchOffset)
      (s.offsetIndex.lookup fetchOffset) ⟨-1, none⟩ pos st) :
    st.startPos = -1 ∧ Scanned s fetchOffset (st.preMeta.map BatchMeta.filePos) pos := by
  induction visits with
  | here => exact ⟨rfl, .first⟩
  | next _ room moves ih =>
    obtain ⟨behind, rfl, kept, pre⟩ := scanTurn_next moves room
    rw [kept, pre]
    exact ⟨ih.1, .next ih.2 behind⟩

theorem scanned_visits {pre : Option Int} (scanned : Scanned s fetchOffset pre pos) :
    ∃ st, Visits headerSizeUpToMagic s.logFile.length (scanTurn s.logFile fetchOffset)
      (s.offsetIndex.lookup fetchOffset) ⟨-1, none⟩ pos st ∧ st.startPos = -1 ∧
        st.preMeta.map BatchMeta.filePos = pre := by
  induction scanned with
  | first => exact ⟨_, .here, rfl, rfl⟩
  | next _ behind ih =>
    obtain ⟨st, visits, unset, _⟩ := ih
    have inside := behind.inside
    simp only [headerSizeWithDelta] at inside
    exact ⟨_, .next visits (by simp only [headerSizeUpToMagic]; omega) (scanTurn_behind behind st), unset, rfl⟩

theorem scanned_nonneg {pre : Int} (scanned : Scanned s fetchOffset (some pre) pos) : 0 ≤ pre := by
  cases scanned with
  | next _ behind => exact behind.nonneg

theorem visits_collected {acc : Int}
    (visits : Visits headerSizeUpToMagic s.logFile.length (accumulateTurn s.logFile maxBytes) start 0 pos acc) :
    acc = pos - start ∧ Collected s.logFile maxBytes start pos := by
  induction visits with
  | here => exact ⟨by omega, .first⟩
  | next _ room moves ih =>
    obtain ⟨nonneg, rfl, rfl, fits⟩ := accumulateTurn_next moves room
    exact ⟨by omega, .next ih.2 nonneg room (by omega)⟩

theorem collected_visits (collected : Collected s.logFile maxBytes start pos) :
    Visits headerSizeUpToMagic s.logFile.length (accumulateTurn s.logFile maxBytes) start 0 pos (pos - start) := by
  induction collected with
  | first =>
    rw [Int.sub_self]
    exact .here
  | @next pos _ nonneg inside fits ih =>
    have moved := Visits.next ih inside (accumulateTurn_fits nonneg inside (by omega))
    rwa [show pos - start + (12 + lengthAt s.logFile pos) = pos + (12 + lengthAt s.logFile pos) - start by
      omega] at moved

theorem collected_fits (collected : Collected s.logFile maxBytes start pos) :
    maxBytes ≤ 0 ∨ pos - start ≤ maxBytes := by
  cases collected with
  | first => omega
  | next _ _ _ fits => exact fits

theorem scans_starts {st : ScanState} (scans : s.Scans fetchOffset (.ok st)) (begins : st.start = some start) :
    StartsAt s fetchOffset start := by
  obtain ⟨p, st', visits, ⟨past, rfl⟩ | ⟨room, stops⟩⟩ := ends_visits scans
  · obtain ⟨unset, scanned⟩ := visits_scanned visits
    rw [ScanState.start, unset, if_pos (by decide)] at begins
    rw [begins] at scanned
    exact .last scanned past
  · obtain ⟨_, scanned⟩ := visits_scanned visits
    obtain ⟨nonneg, ⟨reached, chosen⟩ | ⟨long, below, reached, chosen⟩⟩ := scanTurn_stop stops room
    · have known : 0 ≤ (st'.preMeta.map BatchMeta.filePos).getD p := by
        cases before : st'.preMeta.map BatchMeta.filePos with
        | none => exact nonneg
        | some pre =>
          rw [before] at scanned
          exact scanned_nonneg scanned
      rw [ScanState.start, chosen, if_neg (by omega)] at begins
      rw [← Option.some.inj begins]
      exact .above scanned nonneg room reached
    · rw [ScanState.start, chosen, if_neg (by omega)] at begins
      rw [← Option.some.inj begins]
      exact .within scanned nonneg long below reached

theorem starts_scans (starts : StartsAt s fetchOffset start) :
    ∃ st, s.Scans fetchOffset (.ok st) ∧ st.start = some start := by
  cases starts with
  | last scanned past =>
    obtain ⟨st, visits, unset, pre⟩ := scanned_visits scanned
    exact ⟨st, visits_ends visits (.exit past), by rw [ScanState.start, unset, if_pos (by decide), pre]⟩
  | @above pre pos scanned nonneg inside reached =>
    obtain ⟨st, visits, unset, before⟩ := scanned_visits scanned
    refine ⟨_, visits_ends visits (.stop inside (scanTurn_above nonneg inside reached st)), ?_⟩
    have known : 0 ≤ pre.getD pos := by
      cases pre with
      | none => exact nonneg
      | some pre => exact scanned_nonneg scanned
    rw [ScanState.start, before, if_neg (Int.not_lt.mpr known)]
  | within scanned nonneg inside below reached =>
    obtain ⟨st, visits, _, _⟩ := scanned_visits scanned
    refine ⟨_, visits_ends visits (.stop ?_ (scanTurn_within nonneg inside below reached st)), ?_⟩
    · simp only [headerSizeWithDelta, headerSizeUpToMagic] at inside ⊢
      omega
    · rw [ScanState.start, if_neg (Int.not_lt.mpr nonneg)]

theorem scan_forward (positive : s.LengthsPositive fetchOffset maxBytes) :
    Forward headerSizeUpToMagic s.logFile.length (scanTurn s.logFile fetchOffset)
      (s.offsetIndex.lookup fetchOffset) ⟨-1, none⟩ := by
  intro p st len st' visits room moves
  obtain ⟨behind, rfl, _⟩ := scanTurn_next moves room
  have long := positive.scanned _ p (visits_scanned visits).2 behind
  omega

theorem accumulation_forward (positive : s.LengthsPositive fetchOffset maxBytes)
    (starts : StartsAt s fetchOffset start) :
    Forward headerSizeUpToMagic s.logFile.length (accumulateTurn s.logFile maxBytes) start 0 := by
  intro p acc len acc' visits room moves
  obtain ⟨nonneg, rfl, _⟩ := accumulateTurn_next moves room
  have long := positive.collected start p starts (visits_collected visits).2 nonneg room
  omega

theorem starts_nonneg (starts : StartsAt s fetchOffset start) : 0 ≤ start := by
  cases starts with
  | last scanned => exact scanned_nonneg scanned
  | @above pre pos scanned nonneg =>
    cases pre with
    | none => exact nonneg
    | some pre => exact scanned_nonneg scanned
  | within _ nonneg => exact nonneg

theorem findRawRegion_returns (positive : s.LengthsPositive fetchOffset maxBytes) :
    s.Finds fetchOffset maxBytes (s.findRawRegion fetchOffset maxBytes) := by
  have guard : headerSizeUpToMagic = 17 := rfl
  obtain ⟨scanned, scans, found⟩ := walk_forward LogError.diverges s.fuel (scan_forward positive)
    (by unfold Segment.fuel; omega)
  have scan : s.findStart fetchOffset = scanned := found (Nat.succ_pos _)
  unfold Segment.findRawRegion
  rw [scan]
  cases scanned with
  | error e => exact .unscanned scans
  | ok st =>
    simp only [bind, Except.bind]
    cases begins : st.start with
    | none =>
      have unset : (if st.startPos < 0 then st.preMeta.map BatchMeta.filePos else some st.startPos) = none := begins
      rw [unset]
      exact .nothing scans begins
    | some start =>
      have chosen : (if st.startPos < 0 then st.preMeta.map BatchMeta.filePos else some st.startPos) =
        some start := begins
      have starts := scans_starts scans begins
      have lower := starts_nonneg starts
      obtain ⟨sum, sums, walked⟩ := walk_forward LogError.diverges s.fuel
        (accumulation_forward positive starts) (by unfold Segment.fuel; omega)
      have total : s.accumulate start maxBytes = sum := walked (Nat.succ_pos _)
      have region := Segment.Finds.region scans begins sums
      rw [chosen]
      dsimp only
      rw [total]
      cases sum with
      | error e => exact region
      | ok size =>
        simp only [Except.map] at region ⊢
        split
        · rename_i zero
          rwa [if_pos zero] at region
        · rename_i nonzero
          rwa [if_neg nonzero] at region

end Loops

/-- The scans return and only move forward, exactly if no header on their way declares a length of -12 or less. -/
theorem findRawRegion_advances_iff (s : Segment) (fetchOffset maxBytes : Int) :
    s.Advances fetchOffset maxBytes ↔ s.LengthsPositive fetchOffset maxBytes := by
  constructor
  · intro advances
    refine ⟨?_, ?_⟩
    · intro pre pos scanned behind
      obtain ⟨st, visits, _⟩ := scanned_visits scanned
      have inside := behind.inside
      simp only [headerSizeWithDelta] at inside
      have ahead := advances.scan pos st _ _ visits (by simp only [headerSizeUpToMagic]; omega)
        (scanTurn_behind behind st)
      omega
    · intro start pos starts collected nonneg inside
      obtain ⟨st, scans, begins⟩ := starts_scans starts
      by_contra short
      have fits := collected_fits collected
      have ahead := advances.accumulation st start scans begins pos _ _ _ (collected_visits collected) inside
        (accumulateTurn_fits nonneg inside (by omega))
      omega
  · intro positive
    exact ⟨findRawRegion_returns positive, scan_forward positive,
      fun st start scans begins => accumulation_forward positive (scans_starts scans begins)⟩

def declaring (batchLength : Int) : Bytes :=
  beBytes 8 0 ++ beBytes 4
    (unsigned 32 batchLength) ++ beBytes 4 0 ++ [2] ++ beBytes 4 0 ++ beBytes 2 0 ++ beBytes 4 0 ++
    beBytes 8 0 ++ beBytes 8 0 ++ beBytes 8 7 ++ beBytes 2 0 ++ beBytes 4 0 ++ beBytes 4 1 ++ [0, 0, 0, 0, 1, 0, 0]

def storing (batchLength : Int) : Segment :=
  ((newSegment ⟨1073741824, 4096⟩ (freshFiles 0)).appendRaw 0 (declaring batchLength)).1

theorem findRawRegion_advances_whole : (storing 56).Advances 0 1048576 := by
  have start : (storing 56).offsetIndex.lookup 0 = 0 := by decide +kernel
  have size : (storing 56).logFile.length = 68 := by decide +kernel
  have base : baseAt (storing 56).logFile 0 = 0 := by decide +kernel
  have length : lengthAt (storing 56).logFile 0 = 56 := by decide +kernel
  have scanned : ∀ pre pos, Scanned (storing 56) 0 pre pos → pre = none ∧ pos = 0 := by
    intro pre pos scanned
    induction scanned with
    | first => exact ⟨rfl, by rw [start]; rfl⟩
    | next _ behind ih =>
      have below := behind.base
      rw [ih.2, base] at below
      omega
  have collected : ∀ pos, Collected (storing 56).logFile 1048576 0 pos → pos = 0 ∨ pos = 68 := by
    intro pos collected
    induction collected with
    | first => exact Or.inl rfl
    | next _ _ inside _ ih =>
      rcases ih with rfl | rfl
      · exact Or.inr (by rw [length]; rfl)
      · simp only [headerSizeUpToMagic, size] at inside
        omega
  refine (findRawRegion_advances_iff _ _ _).mpr ⟨?_, ?_⟩
  · intro pre pos reached _
    rw [(scanned pre pos reached).2, length]
    decide
  · intro begin pos starts reached _ inside
    have first : begin = 0 := by
      cases starts with
      | last before => cases (scanned _ _ before).1
      | above before =>
        obtain ⟨rfl, rfl⟩ := scanned _ _ before
        rfl
      | within before => exact (scanned _ _ before).2
    subst first
    rcases collected pos reached with rfl | rfl
    · rw [length]
      decide
    · simp only [headerSizeUpToMagic, size] at inside
      omega

/-- A fetch of the only batch, which declares the length -12, does not return. The produce path accepts the batch. -/
theorem findRawRegion_stays : (Protocol.decodeRecordBatch (fun _ => none) (declaring (-12))).isOk = true ∧
    ∀ r, ¬ (storing (-12)).Finds 0 1048576 r := by
  have start : (storing (-12)).offsetIndex.lookup 0 = 0 := by decide +kernel
  have room : (0 : Int) + headerSizeUpToMagic ≤ (storing (-12)).logFile.length := by decide +kernel
  have reached : 0 ≤ baseAt (storing (-12)).logFile 0 := by decide +kernel
  have length : lengthAt (storing (-12)).logFile 0 = -12 := by decide +kernel
  have scans : (storing (-12)).Scans 0 (.ok ⟨0, none⟩) := by
    unfold Segment.Scans
    rw [start]
    exact .stop room (scanTurn_above (Int.le_refl 0) room reached ⟨-1, none⟩)
  refine ⟨by decide +kernel, ?_⟩
  intro r finds
  cases finds with
  | unscanned failed => cases ends_unique scans failed
  | nothing other empty =>
    cases ends_unique scans other
    cases empty
  | region other begins sums =>
    cases ends_unique scans other
    cases begins
    refine not_ends_of_stays (fun acc => acc = 0) room ?_ rfl sums
    rintro acc rfl
    have turn : accumulateTurn (storing (-12)).logFile 1048576 0 0 = .next _ _ :=
      accumulateTurn_fits (Int.le_refl 0) room (by rw [length]; decide)
    rw [length] at turn
    exact ⟨_, turn, rfl⟩

end KafGo.Storage
