import KafGo.Protocol.MalformedMetadata
import KafGo.Server.MetadataFetcher

/-!
# Records that are counted and records that are applied

The fetch loop of a follower applies the values that `DecodeRecordValues` finds in an answer, and moves its fetch offset
on by what `countRecordsInRecordBatches` adds up from the headers of the same bytes. The two agree only where every
record that a header announces is there and carries a value.
-/

namespace KafGo.Protocol
open Lib Storage

/-! ### How many records of a batch carry a value -/

namespace Scan

section Carried

variable (data : Bytes)

/-- What follows from the integer at a position, or `broken` if there is none. -/
def Goes (pos : Int) (broken : Prop) (go : Int64 → Int → Prop) : Prop :=
  ((varintAt data pos).1 = none → broken) ∧ Onward data pos go

def valuesAt (pos : Int) (valLen : Int64) : Nat := if Present data pos valLen then 1 else 0

/-- The records are scanned without a panic, up to the first one that breaks off, and with the `had` values in front of
them there are `want` values then. -/
def RecordsCarry : Nat → Nat → Nat → Int → Prop
  | 0, had, want, _ => had = want
  | n + 1, had, want, pos => 0 ≤ pos ∧ Goes data pos (had = want) fun _length pos =>
    ((data.length : Int) ≤ pos → had = want) ∧ (pos < data.length →
    Goes data (pos + 1) (had = want) fun _timestampDelta pos => Goes data pos (had = want) fun _offsetDelta pos =>
    Goes data pos (had = want) fun keyLen pos => 0 ≤ behindKey pos keyLen ∧
    Goes data (behindKey pos keyLen) (had = want) fun valLen pos =>
      (Present data pos valLen → valLen.toInt ≤ maxAlloc) ∧
    0 ≤ behindValue data pos valLen ∧
    Goes data (behindValue data pos valLen) (had + valuesAt data pos valLen = want) fun headerCount next =>
    HeadersInside data (RecordsCarry n (had + valuesAt data pos valLen) want) headerCount.toInt.toNat next)

/-- There is an integer at a position, and `go` follows from it. -/
def Reaches (pos : Int) (go : Int64 → Int → Prop) : Prop :=
  ∃ n, (varintAt data pos).1 = some n ∧ go n (varintAt data pos).2

/-- Each of the records is there and carries a value. Only the headers of the last one may be missing. -/
def EachCarries : Nat → Int → Prop
  | 0, _ => True
  | n + 1, pos => 0 ≤ pos ∧ Reaches data pos fun _length pos => pos < data.length ∧
    Reaches data (pos + 1) fun _timestampDelta pos => Reaches data pos fun _offsetDelta pos =>
    Reaches data pos fun keyLen pos => 0 ≤ behindKey pos keyLen ∧
    Reaches data (behindKey pos keyLen) fun valLen pos => Present data pos valLen ∧ valLen.toInt ≤ maxAlloc ∧
    0 ≤ behindValue data pos valLen ∧ Goes data (behindValue data pos valLen) (n = 0) fun headerCount pos =>
    HeadersInside data (EachCarries n) headerCount.toInt.toNat pos

end Carried

variable {data : Bytes} {pos : Int}

theorem length_copied (valLen : Int64) : (copied data pos valLen).length = valuesAt data pos valLen := by
  unfold copied valuesAt
  split <;> rfl

theorem goes_congr {broken broken' : Prop} {go go' : Int64 → Int → Prop} (inside : 0 ≤ pos) (ends : broken ↔ broken')
    (same : ∀ n p, 0 ≤ p → (go n p ↔ go' n p)) :
    (((varintAt data pos).1 = none → broken) ∧ Onward data pos go) ↔ Goes data pos broken' go' :=
  and_congr (imp_congr_right fun _ => ends) (onward_congr inside same)

theorem runs_recordsCarry (n : Nat) {values : List Bytes} {want : Nat} :
    Runs (records data n values) (fun out _ => out.length = want) pos ↔ RecordsCarry data n values.length want pos := by
  induction n generalizing pos values with
  | zero => exact runs_pure
  | succ n ih =>
    rw [records]
    refine (runs_orReturn rfl).trans (and_congr_right fun inside =>
      goes_congr inside Iff.rfl fun _length pos inside => ?_)
    refine (runs_byteOrReturn inside rfl).trans (and_congr_right fun _ => imp_congr_right fun _ => ?_)
    have inside : 0 ≤ pos + 1 := by omega
    refine (runs_orReturn rfl).trans ((and_iff_right inside).trans
      (goes_congr inside Iff.rfl fun _timestampDelta pos inside => ?_))
    refine (runs_orReturn rfl).trans ((and_iff_right inside).trans
      (goes_congr inside Iff.rfl fun _offsetDelta pos inside => ?_))
    refine (runs_orReturn rfl).trans ((and_iff_right inside).trans (goes_congr inside Iff.rfl fun keyLen pos _ => ?_))
    refine runs_key.trans ?_
    refine (runs_orReturn rfl).trans (and_congr_right fun inside => goes_congr inside Iff.rfl fun valLen pos _ => ?_)
    have longer : (values ++ copied data pos valLen).length = values.length + valuesAt data pos valLen := by
      rw [List.length_append, length_copied]
    refine runs_value.trans (and_congr_right fun _ => ?_)
    refine (runs_orReturn rfl).trans (and_congr_right fun inside =>
      goes_congr inside (by rw [longer]) fun headerCount next _ => ?_)
    rw [← runs_headers, ← longer]
    exact runs_bind.trans (runs_congr fun _ p => ih)

/-! A scan adds at most one value for each record. -/

theorem headersInside_after {after : Int → Prop} {n : Nat} (inside : HeadersInside data after n pos) :
    ∃ p, after p := by
  induction n generalizing pos with
  | zero => exact ⟨pos, inside⟩
  | succ n ih => exact ih inside.2.2

theorem goes_cases {broken : Prop} {go : Int64 → Int → Prop} (goes : Goes data pos broken go) :
    broken ∨ ∃ n p, go n p := by
  cases found : (varintAt data pos).1 with
  | none => exact .inl (goes.1 found)
  | some n => exact .inr ⟨n, _, goes.2 n found⟩

theorem recordsCarry_le {n had want : Nat} (carry : RecordsCarry data n had want pos) : want ≤ had + n := by
  induction n generalizing had pos with
  | zero => exact Nat.le_of_eq carry.symm
  | succ n ih =>
    have few : ∀ p (valLen : Int64), valuesAt data p valLen ≤ 1 := by
      intro p valLen
      unfold valuesAt
      split <;> omega
    rcases goes_cases carry.2 with rfl | ⟨_, p₁, ended, onward⟩
    · omega
    by_cases past : (data.length : Int) ≤ p₁
    · have same := ended past
      omega
    rcases goes_cases (onward (by omega)) with rfl | ⟨_, _, onward⟩
    · omega
    rcases goes_cases onward with rfl | ⟨_, _, onward⟩
    · omega
    rcases goes_cases onward with rfl | ⟨_, _, _, onward⟩
    · omega
    rcases goes_cases onward with rfl | ⟨valLen, p, _, _, onward⟩
    · omega
    have one := few p valLen
    rcases goes_cases onward with ended | ⟨_, _, headers⟩
    · omega
    obtain ⟨_, later⟩ := headersInside_after headers
    have bound := ih later
    omega

theorem goes_reaches {broken : Prop} {go go' : Int64 → Int → Prop} (lost : ¬ broken) (same : ∀ n p, go n p ↔ go' n p) :
    Goes data pos broken go ↔ Reaches data pos go' := by
  constructor
  · intro goes
    cases found : (varintAt data pos).1 with
    | none => exact absurd (goes.1 found) lost
    | some n => exact ⟨n, found, (same _ _).mp (goes.2 n found)⟩
  · rintro ⟨n, found, goes⟩
    refine ⟨fun absent => ?_, fun m here => ?_⟩
    · rw [found] at absent
      cases absent
    · obtain rfl := Option.some.inj (found.symm.trans here)
      exact (same _ _).mpr goes

theorem recordsCarry_each {n had : Nat} : RecordsCarry data n had (had + n) pos ↔ EachCarries data n pos := by
  induction n generalizing had pos with
  | zero => exact iff_of_true rfl trivial
  | succ n ih =>
    have lost : ¬ had = had + (n + 1) := by omega
    refine and_congr_right fun _ => goes_reaches lost fun _length pos => ?_
    rw [imp_iff_not lost, Int.not_le]
    refine Iff.trans (and_congr_right fun before => imp_iff_right before) (and_congr_right fun _ => ?_)
    refine goes_reaches lost fun _timestampDelta pos => goes_reaches lost fun _offsetDelta pos =>
      goes_reaches lost fun keyLen pos => and_congr_right fun _ => goes_reaches lost fun valLen pos => ?_
    by_cases present : Present data pos valLen
    · have rest : RecordsCarry data n (had + valuesAt data pos valLen) (had + (n + 1)) = EachCarries data n := by
        funext p
        rw [valuesAt, if_pos present, Nat.add_comm n 1, ← Nat.add_assoc]
        exact propext ih
      have last : had + valuesAt data pos valLen = had + (n + 1) ↔ n = 0 := by
        rw [valuesAt, if_pos present]
        omega
      rw [imp_iff_right present, and_iff_right present]
      simp only [rest, last]
    · refine iff_of_false (fun carry => ?_) fun each => present each.1
      rcases goes_cases carry.2.2 with ended | ⟨_, _, headers⟩
      · rw [valuesAt, if_neg present] at ended
        omega
      · obtain ⟨_, later⟩ := headersInside_after headers
        have bound := recordsCarry_le later
        rw [valuesAt, if_neg present] at bound
        omega

end Scan

/-! ### Over all batches of an answer -/

section Tally

variable (raw : Bytes)

/-- The record count in the header of the batch at a position, as an unsigned number. -/
def announcedAt (pos : Int) : Nat := uint32At (slice raw pos.toNat 61) 57

/-- From a position on the batches announce so many records, and their values make `had` values into `want`. A last
batch that sticks out has a header that is counted and no value that is read. -/
inductive Tally : Int → Nat → Nat → Nat → Prop where
  | done {pos : Int} {had : Nat} (past : (raw.length : Int) ≤ pos) : Tally pos 0 had had
  | cut {pos : Int} {had : Nat} (header : 61 ≤ raw.length - pos) (out : ¬ WholeAt raw pos) :
      Tally pos (announcedAt raw pos) had had
  | batch {pos : Int} {announced had mid want : Nat} (whole : WholeAt raw pos) (long : 61 ≤ sizeAt raw pos)
      (records : Scan.RecordsCarry ((batchAt raw pos).drop 61) (announcedAt raw pos) had mid 0)
      (rest : Tally (pos + sizeAt raw pos) announced mid want) : Tally pos (announcedAt raw pos + announced) had want

/-- From a position on the batches announce so many records, and each of them is there with its value. -/
inductive Carried : Int → Nat → Prop where
  | done {pos : Int} (past : (raw.length : Int) ≤ pos) : Carried pos 0
  | cut {pos : Int} (header : 61 ≤ raw.length - pos) (out : ¬ WholeAt raw pos) (none : announcedAt raw pos = 0) :
      Carried pos 0
  | batch {pos : Int} {announced : Nat} (whole : WholeAt raw pos) (long : 61 ≤ sizeAt raw pos)
      (records : Scan.EachCarries ((batchAt raw pos).drop 61) (announcedAt raw pos) 0)
      (rest : Carried (pos + sizeAt raw pos) announced) : Carried pos (announcedAt raw pos + announced)

variable {raw} {pos : Int} {announced had want : Nat}

theorem tally_le (tally : Tally raw pos announced had want) : want ≤ had + announced := by
  induction tally with
  | done | cut => omega
  | batch _ _ records _ ih =>
    have bound := Scan.recordsCarry_le records
    omega

theorem carried_of_tally (tally : Tally raw pos announced had want) (all : want = had + announced) :
    Carried raw pos announced := by
  induction tally with
  | done past => exact .done past
  | @cut pos had header out =>
    have none : announcedAt raw pos = 0 := by omega
    rw [none]
    exact .cut header out none
  | @batch pos announced had mid want whole long records rest ih =>
    have first := Scan.recordsCarry_le records
    have later := tally_le rest
    obtain rfl : mid = had + announcedAt raw pos := by omega
    exact .batch whole long (Scan.recordsCarry_each.mp records) (ih (by omega))

theorem tally_of_carried (carried : Carried raw pos announced) (had : Nat) :
    Tally raw pos announced had (had + announced) := by
  induction carried generalizing had with
  | done past => exact .done past
  | @cut pos header out none =>
    have tally : Tally raw pos _ had had := .cut header out
    rwa [none] at tally
  | batch whole long records rest ih =>
    rw [← Nat.add_assoc]
    exact .batch whole long (Scan.recordsCarry_each.mpr records) (ih _)

theorem recordsCarry_inside {data : Bytes} {n : Nat} (carry : Scan.RecordsCarry data n had want pos) :
    Scan.RecordsInside data n pos := by
  rw [← List.length_replicate (n := had) (a := ([] : Bytes))] at carry
  have runs := (Scan.runs_recordsCarry n).mpr carry
  exact (Scan.runs_records n).mp (runs_mono runs fun _ _ _ => trivial)

theorem announcedAt_batch (long : 61 ≤ sizeAt raw pos) : uint32At (batchAt raw pos) 57 = announcedAt raw pos := by
  unfold batchAt announcedAt
  rw [uint32At_slice (by omega), uint32At_slice (by omega)]

end Tally
end KafGo.Protocol

namespace KafGo.Server
open Lib Protocol Storage

variable {raw : Bytes} {pos n : Int}

theorem countTurn_cases (raw : Bytes) (pos total : Int) :
    (∃ e, countTurn (wrapSigned 32) raw pos (wrapSigned 32 total) = .fail e) ∨
      (61 ≤ raw.length - pos ∧ countTurn (wrapSigned 32) raw pos (wrapSigned 32 total) =
        .next (sizeAt raw pos) (wrapSigned 32 (total + announcedAt raw pos))) := by
  have size : batchLogOverhead + uint32At (slice raw pos.toNat batchHeaderReadSize) offsetBatchLength =
    sizeAt raw pos := by
    unfold sizeAt
    rw [uint32At_slice (by decide), uint32At_slice (by decide)]
    rfl
  have count : wrapSigned 32 (wrapSigned 32 total + int32At
    (slice raw pos.toNat batchHeaderReadSize) batchRecordCountOff) =
      wrapSigned 32 (total + announcedAt raw pos) := by
    rw [wrapSigned_add, wrapSigned_eq_iff]
    show (2 ^ 32 : Int) ∣ total + signed 32 (announcedAt raw pos) - (total + announcedAt raw pos)
    unfold signed
    split <;> omega
  unfold countTurn
  by_cases header : raw.length - pos < (batchHeaderReadSize : Int)
  · exact .inl ⟨_, if_pos header⟩
  · rw [if_neg header]
    dsimp only
    by_cases short : uint32At (slice raw pos.toNat batchHeaderReadSize) offsetBatchLength < batchLogOverhead
    · exact .inl ⟨_, if_pos short⟩
    · rw [if_neg short, count, ← Int.natCast_add, size]
      exact .inr ⟨Int.not_lt.mp header, rfl⟩

theorem counted_next {total : Int} (room : pos < raw.length)
    (counted : Ends 1 raw.length (countTurn (wrapSigned 32) raw) pos (wrapSigned 32 total) (.ok n)) :
    61 ≤ raw.length - pos ∧
      Ends 1 raw.length (countTurn (wrapSigned 32) raw) (pos + sizeAt raw pos)
        (wrapSigned 32 (total + announcedAt raw pos)) (.ok n) := by
  rcases countTurn_cases raw pos total with ⟨e, fails⟩ | ⟨header, moves⟩
  · cases counted with
    | exit => omega
    | stop _ turn | next _ turn => cases turn.symm.trans fails
  · cases counted with
    | exit => omega
    | stop _ turn => cases turn.symm.trans moves
    | next _ turn rest =>
      obtain ⟨rfl, rfl⟩ := Move.next.inj (turn.symm.trans moves)
      exact ⟨header, rest⟩

theorem tally_counted {announced had want : Nat} {total : Int} (tally : Tally raw pos announced had want)
    (counted : Ends 1 raw.length (countTurn (wrapSigned 32) raw) pos (wrapSigned 32 total) (.ok n)) :
    n = wrapSigned 32 (total + announced) := by
  induction tally generalizing total with
  | done past =>
    cases counted with
    | exit => rw [Int.natCast_zero, Int.add_zero]
    | stop room | next room => omega
  | @cut pos _ header out =>
    obtain ⟨_, rest⟩ := counted_next (by omega) counted
    have past : ¬ pos + sizeAt raw pos ≤ raw.length := fun inside => out ⟨header, inside⟩
    cases rest with
    | exit => rfl
    | stop room | next room => omega
  | batch whole long _ _ ih =>
    obtain ⟨_, rest⟩ := counted_next (by have := whole.1; omega) counted
    rw [ih rest, Int.natCast_add, Int.add_assoc]

/-- The values are found, so many of them, exactly if the batches tally so. -/
theorem ends_tally {values : List Bytes} {result : Except Failure (List Bytes)} {total : Int} {want : Nat}
    (ends : Ends 1 raw.length (decodeValuesTurn raw) pos values result)
    (counted : Ends 1 raw.length (countTurn (wrapSigned 32) raw) pos (wrapSigned 32 total) (.ok n)) :
    (∃ found, result = .ok found ∧ found.length = want) ↔ ∃ announced, Tally raw pos announced values.length want := by
  induction ends generalizing total with
  | @exit pos values past =>
    constructor
    · rintro ⟨_, ⟨⟩, rfl⟩
      exact ⟨0, .done (by omega)⟩
    · rintro ⟨_, tally⟩
      cases tally with
      | done => exact ⟨values, rfl, rfl⟩
      | cut header => omega
      | batch whole => have := whole.1; omega
  | @stop pos values _ room stops =>
    obtain ⟨header, _⟩ := counted_next (by omega) counted
    rcases decodeValuesTurn_cases raw pos values with ⟨out, turn⟩ | ⟨_, _, turn⟩ | ⟨_, _, _, turn, _⟩
    · obtain rfl := Move.stop.inj (turn.symm.trans stops)
      constructor
      · rintro ⟨_, ⟨⟩, rfl⟩
        exact ⟨_, .cut header out⟩
      · rintro ⟨_, tally⟩
        cases tally with
        | done past => omega
        | cut => exact ⟨values, rfl, rfl⟩
        | batch whole => exact absurd whole out
    · cases turn.symm.trans stops
    · cases turn.symm.trans stops
  | @fail pos values _ room fails =>
    rcases decodeValuesTurn_cases raw pos values with ⟨_, turn⟩ | ⟨whole, unsound, _⟩ | ⟨_, _, _, turn, _⟩
    · cases turn.symm.trans fails
    · constructor
      · rintro ⟨_, ⟨⟩, _⟩
      · rintro ⟨_, tally⟩
        cases tally with
        | done past => omega
        | cut _ out => exact absurd whole out
        | batch _ long records =>
          rw [← announcedAt_batch long] at records
          exact absurd ⟨long, recordsCarry_inside records⟩ unsound
    · cases turn.symm.trans fails
  | @next pos _ values _ _ room moves _ ih =>
    obtain ⟨_, countedRest⟩ := counted_next (by omega) counted
    rcases decodeValuesTurn_cases raw pos values with ⟨_, turn⟩ | ⟨_, _, turn⟩ | ⟨whole, sound, found, turn, p, ran⟩
    · cases turn.symm.trans moves
    · cases turn.symm.trans moves
    · obtain ⟨rfl, rfl⟩ := Move.next.inj (turn.symm.trans moves)
      have carry : ∀ mid, Scan.RecordsCarry ((batchAt raw pos).drop 61) (announcedAt raw pos) values.length mid 0 ↔
          found.length = mid := by
        intro mid
        rw [← announcedAt_batch sound.1, ← Scan.runs_recordsCarry]
        exact runs_some ran
      refine (ih countedRest).trans ⟨?_, ?_⟩
      · rintro ⟨announced, rest⟩
        exact ⟨_, .batch whole sound.1 ((carry _).mpr rfl) rest⟩
      · rintro ⟨_, tally⟩
        cases tally with
        | done past => omega
        | cut _ out => exact absurd whole out
        | batch _ _ records rest =>
          rw [← (carry _).mp records] at rest
          exact ⟨_, rest⟩

/-- An answer is counted as its values are applied exactly if each announced record is there with its value, and there
are fewer than `2 ^ 31`. Beside that only a loss of a multiple of `2 ^ 32` records goes unnoticed in an `int32`. -/
theorem counted_applied_iff (raw : Bytes) (n : Int) (counted : countRecordsInRecordBatches raw = .ok n) :
    (∃ values, decodeRecordValues raw = .ok values ∧ (values.length : Int) = n ∧
        ∀ mf : MetadataFetcher, (mf.advance raw).fetchOffset = mf.fetchOffset + values.length) ↔
      (∃ announced, Carried raw 0 announced ∧ announced < 2 ^ 31) ∨
        ∃ announced carried, Tally raw 0 announced 0 carried ∧ carried < announced ∧ carried < 2 ^ 31 ∧
          2 ^ 32 ∣ announced - carried := by
  have counts : Ends 1 raw.length (countTurn (wrapSigned 32) raw) 0 (wrapSigned 32 0) (.ok n) := walk_ends counted
  obtain ⟨result, ends, walked⟩ := walk_forward Failure.panics (raw.length + 1)
    (decodeValuesTurn_forward : Forward 1 raw.length (decodeValuesTurn raw) 0 []) (by omega)
  have decoded : decodeRecordValues raw = result := walked (Nat.succ_pos _)
  have narrow : ∀ {announced carried}, Tally raw 0 announced 0 carried →
      ((carried : Int) = n ↔ carried < 2 ^ 31 ∧ 2 ^ 32 ∣ announced - carried) := by
    intro announced carried tally
    have below := tally_le tally
    rw [tally_counted tally counts, Int.zero_add, eq_comm]
    exact wrapSigned_eq_natCast_iff (by decide) (by omega)
  constructor
  · rintro ⟨values, found, length, _⟩
    obtain ⟨announced, tally⟩ := (ends_tally ends counts).mp ⟨values, decoded.symm.trans found, rfl⟩
    obtain ⟨small, multiple⟩ := (narrow tally).mp length
    have below : values.length ≤ ([] : List Bytes).length + announced := tally_le tally
    rw [List.length_nil, Nat.zero_add] at below
    rcases Nat.lt_or_ge values.length announced with lost | all
    · exact .inr ⟨announced, _, tally, lost, small, multiple⟩
    · exact .inl ⟨announced, carried_of_tally tally (by rw [List.length_nil]; omega), by omega⟩
  · intro condition
    have tallies : ∃ announced carried, Tally raw 0 announced 0 carried ∧ carried < 2 ^ 31 ∧
      2 ^ 32 ∣ announced - carried := by
      rcases condition with ⟨announced, carried, small⟩ | ⟨announced, carried, tally, _, small, multiple⟩
      · have tally := tally_of_carried carried 0
        rw [Nat.zero_add] at tally
        exact ⟨announced, announced, tally, small, by simp⟩
      · exact ⟨announced, carried, tally, small, multiple⟩
    obtain ⟨announced, carried, tally, fits⟩ := tallies
    have length := (narrow tally).mpr fits
    obtain ⟨values, found, rfl⟩ := (ends_tally ends counts).mpr ⟨announced, tally⟩
    refine ⟨values, decoded.trans found, length, fun mf => ?_⟩
    unfold MetadataFetcher.advance
    rw [counted]
    dsimp only
    split
    · rw [length]
    · show mf.fetchOffset = _
      omega

def oneValue : Bytes := oneRecord [0, 0, 0, 0, 1, 2, 7, 0]

theorem oneValue_carried : Carried oneValue 0 1 := by
  have announced : announcedAt oneValue 0 = 1 := by decide +kernel
  have behind : ¬ ((oneValue.length : Int) > 0 + sizeAt oneValue 0) := by decide +kernel
  have each : Scan.EachCarries ((batchAt oneValue 0).drop 61) (announcedAt oneValue 0) 0 := by
    rw [announced]
    refine ⟨by decide, 0, by decide +kernel, by decide +kernel, 0, by decide +kernel, 0, by decide +kernel,
      -1, by decide +kernel, by decide +kernel, 1, by decide +kernel, by decide +kernel, by decide +kernel,
      by decide +kernel, fun _ => rfl, fun n found => ?_⟩
    obtain rfl : n = 0 := by
      have zero : (some n : Option Int64) = some 0 := found.symm.trans (by decide +kernel)
      exact Option.some.inj zero
    trivial
  have whole : WholeAt oneValue 0 := ⟨by decide +kernel, by decide +kernel⟩
  have carried := Carried.batch whole (by decide +kernel) each (.done (Int.not_lt.mp behind))
  rwa [announced] at carried

/-- An answer with one record of one byte is counted and applied once. -/
theorem counted_applied_one : ∃ values, decodeRecordValues oneValue = .ok values ∧ (values.length : Int) = 1 ∧
    ∀ mf : MetadataFetcher, (mf.advance oneValue).fetchOffset = mf.fetchOffset + values.length :=
  (counted_applied_iff oneValue 1 (by decide +kernel)).mpr (.inl ⟨1, oneValue_carried, by decide⟩)

def nullValue : Bytes := oneRecord [0, 0, 0, 0, 1, 1, 0]

def cutBatch : Bytes := oneValue.take 61

/-- Both are counted once, and nothing is applied for them. -/
theorem counted_unapplied :
    (countRecordsInRecordBatches nullValue = .ok 1 ∧ decodeRecordValues nullValue = .ok []) ∧
      (countRecordsInRecordBatches cutBatch = .ok 1 ∧ decodeRecordValues cutBatch = .ok []) ∧
      ((newMetadataFetcher 1).advance nullValue).fetchOffset = 1 :=
  ⟨⟨by decide +kernel, by decide +kernel⟩, ⟨by decide +kernel, by decide +kernel⟩, by decide +kernel⟩

end KafGo.Server
