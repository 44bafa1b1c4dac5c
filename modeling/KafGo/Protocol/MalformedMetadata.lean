import KafGo.Lib.Stuck
import KafGo.Protocol.MetadataBatch
import KafGo.Protocol.MetadataValue

/-!
# Metadata records that cannot be read

What a follower fetches from the metadata log may be any bytes. The scanner moves its position by the lengths it finds
without comparing them with the bytes it has, and the decoders of the values slice without a check. Here are the bytes
for which they get through.
-/

namespace KafGo.Protocol
open Lib Storage

namespace Scan

/-- The word at the front of the bytes, if its digits end in time, and the number of digits. -/
def digits : Nat → UInt64 → UInt64 → Bytes → Option UInt64 × Nat
  | 0, _, _, _ => (none, 0)
  | _ + 1, _, _, [] => (none, 0)
  | turns + 1, uv, shift, b :: rest =>
    if b < 0x80 then (some (pushDigit uv shift b), 1)
    else ((digits turns (pushDigit uv shift b) (shift + 7) rest).1,
      (digits turns (pushDigit uv shift b) (shift + 7) rest).2 + 1)

section Positions

variable (data : Bytes) (pos : Int)

/-- The integer at a position and the position behind its digits. -/
def varintAt : Option Int64 × Int :=
  ((digits 10 0 0 (data.drop pos.toNat)).1.map unzigzag, pos + (digits 10 0 0 (data.drop pos.toNat)).2)

def Onward (go : Int64 → Int → Prop) : Prop := ∀ n, (varintAt data pos).1 = some n → go n (varintAt data pos).2

def behind (n : Int64) : Int := wrapSigned 64 (pos + n.toInt)

def behindKey (keyLen : Int64) : Int := if keyLen > 0 then behind pos keyLen else pos

def Present (valLen : Int64) : Prop := valLen > 0 ∧ behind pos valLen ≤ data.length

instance (valLen : Int64) : Decidable (Present data pos valLen) :=
  inferInstanceAs (Decidable (valLen > 0 ∧ behind pos valLen ≤ data.length))

def behindValue (valLen : Int64) : Int := if Present data pos valLen then behind pos valLen else pos

/-- The position behind the key or the value of a header, where a length that is not there counts as zero. -/
def behindPart : Int := behind (varintAt data pos).2 ((varintAt data pos).1.getD 0)

end Positions

/-- No header is read in front of the bytes, and `after` holds of the position behind the headers. -/
def HeadersInside (data : Bytes) (after : Int → Prop) : Nat → Int → Prop
  | 0, pos => after pos
  | n + 1, pos => 0 ≤ pos ∧ 0 ≤ behindPart data pos ∧
    HeadersInside data after n (behindPart data (behindPart data pos))

/-- No record is read in front of the bytes, up to the first one that breaks off, and each value can be allocated. -/
def RecordsInside (data : Bytes) : Nat → Int → Prop
  | 0, _ => True
  | n + 1, pos => 0 ≤ pos ∧ Onward data pos fun _length pos => pos < data.length →
    Onward data (pos + 1) fun _timestampDelta pos => Onward data pos fun _offsetDelta pos =>
    Onward data pos fun keyLen pos => 0 ≤ behindKey pos keyLen ∧
    Onward data (behindKey pos keyLen) fun valLen pos => (Present data pos valLen → valLen.toInt ≤ maxAlloc) ∧
    0 ≤ behindValue data pos valLen ∧ Onward data (behindValue data pos valLen) fun headerCount pos =>
    HeadersInside data (RecordsInside data n) headerCount.toInt.toNat pos

section Rules

variable {data : Bytes} {pos : Int} {α : Type} {post : α → Int → Prop}

theorem byte_inside (inside : 0 ≤ pos) : (byte data).run pos =
    if data.length ≤ pos then some (none, pos) else some (some (data.getD pos.toNat 0), pos + 1) := by
  show (if pos ≥ data.length then _ else if pos < 0 then _ else _ : Scan _).run pos = _
  by_cases past : data.length ≤ pos
  · rw [if_pos past, if_pos past]
    rfl
  · rw [if_neg past, if_neg past, if_neg (by omega)]
    rfl

theorem byte_outside (outside : pos < 0) : (byte data).run pos = none := by
  show (if pos ≥ data.length then _ else if pos < 0 then _ else _ : Scan _).run pos = _
  rw [if_neg (by omega), if_pos outside]
  rfl

theorem varintLoop_inside {turns : Nat} {uv shift : UInt64} (inside : 0 ≤ pos) :
    (varintLoop data turns uv shift).run pos =
      some ((digits turns uv shift (data.drop pos.toNat)).1.map unzigzag,
        pos + (digits turns uv shift (data.drop pos.toNat)).2) := by
  induction turns generalizing pos uv shift with
  | zero =>
    simp only [digits, Option.map_none, Int.natCast_zero, Int.add_zero]
    rfl
  | succ turns ih =>
    rw [varintLoop, StateT.run_bind, byte_inside inside]
    cases left : data.drop pos.toNat with
    | nil =>
      have past := List.drop_eq_nil_iff.mp left
      rw [if_pos (by omega)]
      simp only [digits, Option.map_none, Int.natCast_zero, Int.add_zero]
      rfl
    | cons b rest =>
      have room : pos.toNat < data.length := by
        have size := congrArg List.length left
        rw [List.length_drop, List.length_cons] at size
        omega
      have head : data.getD pos.toNat 0 = b := by
        have first : (data.drop pos.toNat)[0]? = some b := by rw [left]; rfl
        rw [List.getElem?_drop, Nat.add_zero] at first
        rw [List.getD_eq_getElem?_getD, first]
        rfl
      have tail : data.drop (pos + 1).toNat = rest := by
        rw [show (pos + 1).toNat = pos.toNat + 1 by omega, ← List.drop_drop, left]
        rfl
      rw [if_neg (by omega), head, digits]
      show (if b < 0x80 then _ else _ : Scan _).run (pos + 1) = _
      by_cases last : b < 0x80
      · rw [if_pos last, if_pos last]
        rfl
      · rw [if_neg last, if_neg last, ih (by omega), tail]
        simp only [Int.natCast_add, Int.natCast_one, Int.add_assoc, Int.add_comm 1]

theorem varint_inside (inside : 0 ≤ pos) : (varint data).run pos = some (varintAt data pos) := varintLoop_inside inside

theorem varint_outside (outside : pos < 0) : (varint data).run pos = none := by
  rw [varint, varintLoop, StateT.run_bind, byte_outside outside]
  rfl

theorem varintAt_inside (inside : 0 ≤ pos) : 0 ≤ (varintAt data pos).2 := by
  unfold varintAt
  dsimp only
  omega

theorem runs_varint {next : Option Int64 → Scan α} : Runs (varint data >>= next) post pos ↔
    0 ≤ pos ∧ Runs (next (varintAt data pos).1) post (varintAt data pos).2 := by
  rw [runs_bind]
  by_cases inside : 0 ≤ pos
  · rw [runs_some (varint_inside inside)]
    exact (and_iff_right inside).symm
  · exact iff_of_false (runs_none (varint_outside (by omega))) fun both => inside both.1

theorem runs_skip {n : Int64} {next : Unit → Scan α} :
    Runs (skip n >>= next) post pos ↔ Runs (next ()) post (behind pos n) := by
  rw [runs_bind]
  exact runs_some rfl

theorem runs_key {keyLen : Int64} {next : Scan α} :
    Runs (if keyLen > 0 then skip keyLen >>= fun _ => next else next) post pos ↔
      Runs next post (behindKey pos keyLen) := by
  unfold behindKey
  by_cases keyed : keyLen > 0
  · rw [if_pos keyed, if_pos keyed, runs_skip]
  · rw [if_neg keyed, if_neg keyed]

theorem runs_headers (n : Nat) (after : Int → Prop) :
    Runs (headers data n) (fun _ p => after p) pos ↔ HeadersInside data after n pos := by
  induction n generalizing pos with
  | zero => exact runs_pure
  | succ n ih =>
    rw [headers, runs_varint, runs_skip, runs_varint, runs_skip, ih]
    rfl

variable {values : List Bytes}

theorem runs_orReturn {good : List Bytes → Prop} {next : Option Int64 → Scan (List Bytes)}
    (broken : next none = pure values) :
    Runs (varint data >>= next) (fun out _ => good out) pos ↔
      0 ≤ pos ∧ ((varintAt data pos).1 = none → good values) ∧
        Onward data pos fun n p => Runs (next (some n)) (fun out _ => good out) p := by
  rw [runs_varint]
  refine and_congr_right fun _ => ?_
  unfold Onward
  cases (varintAt data pos).1 with
  | none =>
    rw [broken, runs_pure]
    exact ⟨fun ends => ⟨fun _ => ends, fun n there => by cases there⟩, fun both => both.1 rfl⟩
  | some n =>
    constructor
    · intro runs
      refine ⟨fun lost => absurd lost (Option.some_ne_none n), fun m same => ?_⟩
      rwa [← Option.some.inj same]
    · intro both
      exact both.2 n rfl

theorem runs_orReturn_any {next : Option Int64 → Scan (List Bytes)} (broken : next none = pure values) :
    Runs (varint data >>= next) (fun _ _ => True) pos ↔
      0 ≤ pos ∧ Onward data pos fun n p => Runs (next (some n)) (fun _ _ => True) p :=
  (runs_orReturn broken).trans (and_congr_right fun _ => and_iff_right fun _ => trivial)

theorem onward_congr {go go' : Int64 → Int → Prop} (inside : 0 ≤ pos) (same : ∀ n p, 0 ≤ p → (go n p ↔ go' n p)) :
    Onward data pos go ↔ Onward data pos go' :=
  forall_congr' fun n => imp_congr_right fun _ => same n _ (varintAt_inside inside)

theorem runs_byteOrReturn {good : List Bytes → Prop} {next : Option UInt8 → Scan (List Bytes)} (inside : 0 ≤ pos)
    (broken : next none = pure values) :
    Runs (byte data >>= next) (fun out _ => good out) pos ↔ ((data.length : Int) ≤ pos → good values) ∧
      (pos < data.length → Runs (next (some (data.getD pos.toNat 0))) (fun out _ => good out) (pos + 1)) := by
  rw [runs_bind]
  have ran : (byte data).run pos = _ := byte_inside inside
  by_cases past : data.length ≤ pos
  · rw [if_pos past] at ran
    rw [runs_some ran, broken, runs_pure]
    exact ⟨fun ends => ⟨fun _ => ends, fun room => absurd past (by omega)⟩, fun both => both.1 past⟩
  · rw [if_neg past] at ran
    rw [runs_some ran]
    exact ⟨fun runs => ⟨fun there => absurd there past, fun _ => runs⟩, fun both => both.2 (by omega)⟩

theorem value_run (data : Bytes) (pos : Int) (valLen : Int64) : (value data valLen).run pos =
    if Present data pos valLen then
      if valLen.toInt ≤ maxAlloc then some ([slice data pos.toNat valLen.toInt.toNat], behind pos valLen) else none
    else some ([], pos) := by
  unfold value
  simp only [StateT.run_bind, StateT.run_get, pure_bind]
  by_cases present : Present data pos valLen
  · have copied : valLen > 0 ∧ wrapSigned 64 (pos + valLen.toInt) ≤ data.length := present
    rw [if_pos copied, if_pos present]
    by_cases fits : valLen.toInt ≤ maxAlloc
    · rw [if_neg (Int.not_lt.mpr fits), if_pos fits]
      rfl
    · rw [if_pos (Int.not_le.mp fits), if_neg fits]
      rfl
  · have left : ¬ (valLen > 0 ∧ wrapSigned 64 (pos + valLen.toInt) ≤ data.length) := present
    rw [if_neg left, if_neg present]
    rfl

def copied (data : Bytes) (pos : Int) (valLen : Int64) : List Bytes :=
  if Present data pos valLen then [slice data pos.toNat valLen.toInt.toNat] else []

theorem runs_value {valLen : Int64} {next : List Bytes → Scan α} :
    Runs (value data valLen >>= next) post pos ↔ (Present data pos valLen → valLen.toInt ≤ maxAlloc) ∧
      Runs (next (copied data pos valLen)) post (behindValue data pos valLen) := by
  rw [runs_bind]
  have ran := value_run data pos valLen
  unfold copied behindValue
  by_cases present : Present data pos valLen
  · rw [if_pos present] at ran
    rw [if_pos present, if_pos present]
    by_cases fits : valLen.toInt ≤ maxAlloc
    · rw [if_pos fits] at ran
      rw [runs_some ran]
      exact ⟨fun runs => ⟨fun _ => fits, runs⟩, fun both => both.2⟩
    · rw [if_neg fits] at ran
      exact iff_of_false (runs_none ran) fun both => fits (both.1 present)
  · rw [if_neg present] at ran
    rw [if_neg present, if_neg present, runs_some ran]
    exact ⟨fun runs => ⟨fun there => absurd there present, runs⟩, fun both => both.2⟩

theorem runs_records (n : Nat) : Runs (records data n values) (fun _ _ => True) pos ↔ RecordsInside data n pos := by
  induction n generalizing pos values with
  | zero => exact iff_of_true (runs_pure.mpr trivial) trivial
  | succ n ih =>
    rw [records]
    refine (runs_orReturn_any rfl).trans (and_congr_right fun inside =>
      onward_congr inside fun _length pos inside => ?_)
    refine (runs_byteOrReturn inside rfl).trans ((and_iff_right fun _ => trivial).trans (imp_congr_right fun _ => ?_))
    have inside : 0 ≤ pos + 1 := by omega
    refine (runs_orReturn_any rfl).trans ((and_iff_right inside).trans
      (onward_congr inside fun _timestampDelta pos inside => ?_))
    refine (runs_orReturn_any rfl).trans ((and_iff_right inside).trans
      (onward_congr inside fun _offsetDelta pos inside => ?_))
    refine (runs_orReturn_any rfl).trans ((and_iff_right inside).trans (onward_congr inside fun keyLen pos _ => ?_))
    refine runs_key.trans ?_
    refine (runs_orReturn_any rfl).trans (and_congr_right fun inside => onward_congr inside fun valLen pos _ => ?_)
    refine runs_value.trans (and_congr_right fun _ => ?_)
    refine (runs_orReturn_any rfl).trans (and_congr_right fun inside => onward_congr inside fun headerCount pos _ => ?_)
    rw [← runs_headers]
    exact runs_bind.trans (runs_congr fun _ p => ih)

end Rules

end Scan

/-! ### Batches -/

section Batches

variable (raw : Bytes)

def sizeAt (pos : Int) : Nat := 12 + uint32At (slice raw pos.toNat 12) 8

def batchAt (pos : Int) : Bytes := slice raw pos.toNat (sizeAt raw pos)

def WholeAt (pos : Int) : Prop := 61 ≤ raw.length - pos ∧ pos + sizeAt raw pos ≤ raw.length

/-- The batch has at least its header, and its records are read inside it. -/
def SoundAt (pos : Int) : Prop :=
  61 ≤ sizeAt raw pos ∧ Scan.RecordsInside ((batchAt raw pos).drop 61) (uint32At (batchAt raw pos) 57) 0

/-- A batch starts at the position, counted from the one at `start`. -/
inductive BatchFrom (start : Int) : Int → Prop where
  | here : BatchFrom start start
  | next {pos : Int} (before : BatchFrom start pos) (whole : WholeAt raw pos) : BatchFrom start (pos + sizeAt raw pos)

def BatchesSound (start : Int) : Prop := ∀ pos, BatchFrom raw start pos → WholeAt raw pos → SoundAt raw pos

variable {raw} {pos : Int} {values : List Bytes}

/-- One turn stops where no whole batch is left, panics in one that is not sound and moves behind any other. -/
theorem decodeValuesTurn_cases (raw : Bytes) (pos : Int) (values : List Bytes) :
    (¬ WholeAt raw pos ∧ decodeValuesTurn raw pos values = .stop values) ∨
      (WholeAt raw pos ∧ ¬ SoundAt raw pos ∧ decodeValuesTurn raw pos values = .fail .panics) ∨
      (WholeAt raw pos ∧ SoundAt raw pos ∧ ∃ found, decodeValuesTurn raw pos values = .next (sizeAt raw pos) found ∧
        ∃ p, (Scan.records ((batchAt raw pos).drop 61) (uint32At (batchAt raw pos) 57) values).run 0 =
          some (found, p)) := by
  have size : sizeAt raw pos = 12 + uint32At (slice raw pos.toNat 12) 8 := rfl
  unfold decodeValuesTurn
  by_cases header : raw.length - pos < 61
  · exact .inl ⟨fun whole => absurd whole.1 (by omega), if_pos header⟩
  · rw [if_neg header]
    dsimp only
    rw [← size]
    by_cases past : pos + sizeAt raw pos > raw.length
    · exact .inl ⟨fun whole => absurd whole.2 (by omega), if_pos past⟩
    · have whole : WholeAt raw pos := ⟨by omega, by omega⟩
      rw [if_neg past]
      by_cases short : sizeAt raw pos < 61
      · exact .inr (.inl ⟨whole, fun sound => absurd sound.1 (by omega), if_pos short⟩)
      · rw [if_neg short]
        cases ran : (Scan.records ((batchAt raw pos).drop 61) (uint32At (batchAt raw pos) 57) values).run 0 with
        | none =>
          unfold batchAt at ran
          rw [ran]
          exact .inr (.inl ⟨whole, fun sound => runs_none ran ((Scan.runs_records _).mpr sound.2), rfl⟩)
        | some result =>
          have runs := (Scan.runs_records _).mp ((runs_some ran).mpr trivial)
          have scanned := ran
          unfold batchAt at scanned
          rw [scanned]
          exact .inr (.inr ⟨whole, ⟨Nat.not_lt.mp short, runs⟩, result.1, rfl, result.2, rfl⟩)

theorem decodeValuesTurn_forward : Forward 1 raw.length (decodeValuesTurn raw) pos values := by
  intro p vs len vs' _ _ moves
  rcases decodeValuesTurn_cases raw p vs with ⟨_, turn⟩ | ⟨_, _, turn⟩ | ⟨_, sound, _, turn, _⟩
  · cases turn.symm.trans moves
  · cases turn.symm.trans moves
  · rw [turn] at moves
    have size := sound.1
    rw [← (Move.next.inj moves).1]
    omega

theorem batchFrom_cases {start : Int} (reached : BatchFrom raw start pos) :
    pos = start ∨ (WholeAt raw start ∧ BatchFrom raw (start + sizeAt raw start) pos) := by
  induction reached with
  | here => exact .inl rfl
  | next before whole ih =>
    rcases ih with rfl | ⟨first, later⟩
    · exact .inr ⟨whole, .here⟩
    · exact .inr ⟨first, .next later whole⟩

theorem batchFrom_head {start : Int} (whole : WholeAt raw start)
    (reached : BatchFrom raw (start + sizeAt raw start) pos) : BatchFrom raw start pos := by
  induction reached with
  | here => exact .next .here whole
  | next _ there ih => exact .next ih there

theorem batchesSound_rest (rest : ¬ WholeAt raw pos) : BatchesSound raw pos := by
  intro p reached whole
  rcases batchFrom_cases reached with rfl | ⟨first, _⟩
  · exact absurd whole rest
  · exact absurd first rest

theorem batchesSound_next (whole : WholeAt raw pos) (sound : SoundAt raw pos) :
    BatchesSound raw (pos + sizeAt raw pos) ↔ BatchesSound raw pos := by
  constructor
  · intro later p reached
    rcases batchFrom_cases reached with rfl | ⟨_, onward⟩
    · exact fun _ => sound
    · exact later p onward
  · intro all p reached
    exact all p (batchFrom_head whole reached)

theorem ends_ok_iff {result : Except Failure (List Bytes)}
    (ends : Ends 1 raw.length (decodeValuesTurn raw) pos values result) :
    (∃ found, result = .ok found) ↔ BatchesSound raw pos := by
  induction ends with
  | exit past =>
    refine iff_of_true ⟨_, rfl⟩ (batchesSound_rest fun whole => ?_)
    have room := whole.1
    omega
  | @stop p vs _ _ stops =>
    rcases decodeValuesTurn_cases raw p vs with ⟨rest, _⟩ | ⟨_, _, turn⟩ | ⟨_, _, _, turn, _⟩
    · exact iff_of_true ⟨_, rfl⟩ (batchesSound_rest rest)
    · cases turn.symm.trans stops
    · cases turn.symm.trans stops
  | @fail p vs _ _ fails =>
    rcases decodeValuesTurn_cases raw p vs with ⟨_, turn⟩ | ⟨whole, unsound, _⟩ | ⟨_, _, _, turn, _⟩
    · cases turn.symm.trans fails
    · refine iff_of_false ?_ fun sound => unsound (sound p .here whole)
      rintro ⟨_, found⟩
      cases found
    · cases turn.symm.trans fails
  | @next p len vs _ _ _ moves _ ih =>
    rcases decodeValuesTurn_cases raw p vs with ⟨_, turn⟩ | ⟨_, _, turn⟩ | ⟨whole, sound, _, turn, _⟩
    · cases turn.symm.trans moves
    · cases turn.symm.trans moves
    · rw [turn] at moves
      obtain ⟨rfl, _⟩ := Move.next.inj moves
      exact ih.trans (batchesSound_next whole sound)

end Batches

/-! ### Values -/

namespace Payload

variable {α : Type} {post : α → Bytes → Prop} {payload : Bytes}

theorem runs_take {n : Nat} {next : Bytes → Payload α} : Runs (take n >>= next) post payload ↔
    n ≤ payload.length ∧ Runs (next (payload.take n)) post (payload.drop n) := by
  rw [runs_bind]
  by_cases room : n ≤ payload.length
  · have ran : (take n).run payload = some (payload.take n, payload.drop n) := if_pos room
    rw [runs_some ran]
    exact (and_iff_right room).symm
  · have stuck : (take n).run payload = none := if_neg room
    exact iff_of_false (runs_none stuck) fun both => room both.1

theorem runs_int32s {n : Nat} {next : List Int → Payload α} (after : Bytes → Prop)
    (later : ∀ xs rest, Runs (next xs) post rest ↔ after rest) : Runs (int32s n >>= next) post payload ↔
      4 * n ≤ payload.length ∧ after (payload.drop (4 * n)) := by
  induction n generalizing payload next with
  | zero => exact (later [] payload).trans (and_iff_right (Nat.zero_le _)).symm
  | succ n ih =>
    have others : ∀ x (rest : Bytes), Runs (int32s n >>= fun xs => next (x :: xs)) post rest ↔
        4 * n ≤ rest.length ∧ after (rest.drop (4 * n)) := fun x rest => ih fun xs => later (x :: xs)
    simp only [int32s, int32, bind_assoc, pure_bind, runs_take, others, List.length_drop, List.drop_drop]
    rw [show 4 + 4 * n = 4 * (n + 1) by omega, ← and_assoc]
    exact and_congr_left fun _ => ⟨fun _ => by omega, fun _ => by omega⟩

theorem runs_optional (version : UInt8) (f : Int → α) (default : α) (rest : Bytes) :
    Runs (do if version ≥ 1 ∧ (← get).length ≥ 2 then return f (← int16) else return default)
      (fun _ _ => True) rest := by
  refine runs_bind.mpr ((runs_some (show (get : Payload Bytes).run rest = some (rest, rest) from rfl)).mpr ?_)
  by_cases there : version ≥ 1 ∧ rest.length ≥ 2
  · rw [if_pos there]
    simp only [int16, bind_assoc, pure_bind, runs_take, runs_pure, and_true]
    exact there.2
  · rw [if_neg there]
    exact runs_pure.mpr trivial

end Payload

namespace MetadataValue
open Payload

/-- The number of bytes that a payload of the type needs for the lengths in it. No number is an unknown type. -/
def declaredLength (kind : UInt8) (payload : Bytes) : Option Nat :=
  if kind = recordTypeBroker then some (18 + beNat (slice payload 12 2))
  else if kind = recordTypeTopic then some (22 + beNat (slice payload 20 2))
  else if kind = recordTypePartition then some (36 + 4 * beNat (slice payload 28 4) +
    4 * beNat (slice payload (32 + 4 * beNat (slice payload 28 4)) 4))
  else if kind = recordTypeProducerIds then some 20
  else none

theorem runs_broker (payload : Bytes) : Runs decodeBrokerRecord (fun _ _ => True) payload ↔
    18 + beNat (slice payload 12 2) ≤ payload.length := by
  unfold decodeBrokerRecord int32 int64 uint16 slice
  simp only [bind_assoc, pure_bind, runs_take, runs_pure, and_true, List.length_drop, List.drop_drop]
  generalize beNat ((payload.drop 12).take 2) = hostLen
  omega

theorem runs_topic (version : UInt8) (payload : Bytes) : Runs (decodeTopicRecord version) (fun _ _ => True) payload ↔
    22 + beNat (slice payload 20 2) ≤ payload.length := by
  unfold decodeTopicRecord topicId int32 uint16 slice
  simp only [bind_assoc, pure_bind, runs_take, List.length_drop, List.drop_drop]
  rw [and_iff_left (runs_optional _ _ _ _)]
  generalize beNat ((payload.drop 20).take 2) = nameLen
  omega

theorem runs_partition (payload : Bytes) : Runs decodePartitionRecord (fun _ _ => True) payload ↔
    36 + 4 * beNat (slice payload 28 4) + 4 * beNat (slice payload (32 + 4 * beNat (slice payload 28 4)) 4) ≤
      payload.length := by
  unfold decodePartitionRecord topicId int32 uint32 slice
  simp only [bind_assoc, pure_bind, runs_take, List.length_drop, List.drop_drop]
  rw [runs_int32s (fun rest => 4 ≤ rest.length ∧ 4 * beNat (rest.take 4) ≤ rest.length - 4)]
  · simp only [List.length_drop, List.drop_drop]
    generalize beNat ((payload.drop 28).take 4) = numReplicas
    generalize beNat ((payload.drop (32 + 4 * numReplicas)).take 4) = numISR
    omega
  · intro replicas rest
    rw [runs_take, runs_int32s (fun _ => True) fun _ _ => runs_pure, and_true, List.length_drop]

theorem runs_producerIds (payload : Bytes) :
    Runs decodeProducerIdsRecord (fun _ _ => True) payload ↔ 20 ≤ payload.length := by
  unfold decodeProducerIdsRecord int32 int64
  simp only [bind_assoc, pure_bind, runs_take, runs_pure, and_true, List.length_drop, List.drop_drop]
  omega

theorem record_cases {record : Payload MetadataValue} {size : Nat} {payload : Bytes}
    (runs : Runs record (fun _ _ => True) payload ↔ size ≤ payload.length) :
    (size ≤ payload.length ∧ ∃ r, (record.run' payload).map some = some (some r)) ∨
      (payload.length < size ∧ (record.run' payload).map some = none) := by
  rw [StateT.run'_eq]
  cases ran : record.run payload with
  | none =>
    have short : ¬ size ≤ payload.length := fun long => runs_none ran (runs.mpr long)
    exact .inr ⟨Nat.not_le.mp short, rfl⟩
  | some result => exact .inl ⟨runs.mp ((runs_some ran).mpr trivial), result.1, rfl⟩

theorem decode_cases (kind version : UInt8) (payload : Bytes) :
    (declaredLength kind payload = none ∧ decode (kind :: version :: payload) = some none) ∨
      ∃ size, declaredLength kind payload = some size ∧
        ((size ≤ payload.length ∧ ∃ r, decode (kind :: version :: payload) = some (some r)) ∨
          (payload.length < size ∧ decode (kind :: version :: payload) = none)) := by
  rw [decode]
  unfold declaredLength
  by_cases broker : kind = recordTypeBroker
  · rw [if_pos broker, if_pos broker]
    exact .inr ⟨_, rfl, record_cases (runs_broker payload)⟩
  · rw [if_neg broker, if_neg broker]
    by_cases topic : kind = recordTypeTopic
    · rw [if_pos topic, if_pos topic]
      exact .inr ⟨_, rfl, record_cases (runs_topic version payload)⟩
    · rw [if_neg topic, if_neg topic]
      by_cases partition : kind = recordTypePartition
      · rw [if_pos partition, if_pos partition]
        exact .inr ⟨_, rfl, record_cases (runs_partition payload)⟩
      · rw [if_neg partition, if_neg partition]
        by_cases producerIds : kind = recordTypeProducerIds
        · rw [if_pos producerIds, if_pos producerIds]
          exact .inr ⟨_, rfl, record_cases (runs_producerIds payload)⟩
        · rw [if_neg producerIds, if_neg producerIds]
          exact .inl ⟨rfl, rfl⟩

/-- A type that is known, with all the bytes that its lengths declare. -/
def Whole : Bytes → Prop
  | kind :: _ :: payload => ∃ size, declaredLength kind payload = some size ∧ size ≤ payload.length
  | _ => False

/-- A type that is known, with fewer bytes than its lengths declare. -/
def BreaksOff : Bytes → Prop
  | kind :: _ :: payload => ∃ size, declaredLength kind payload = some size ∧ payload.length < size
  | _ => False

/-- The comment of `Decode`: a record, or nil if the type is unknown or the payload is too short. -/
def AsPromised (b : Bytes) : Prop :=
  (Whole b → ∃ r, decode b = some (some r)) ∧ (¬ Whole b → decode b = some none)

theorem asPromised_iff (b : Bytes) : AsPromised b ↔ ¬ BreaksOff b := by
  unfold AsPromised
  rcases b with _ | ⟨kind, _ | ⟨version, payload⟩⟩
  · exact iff_of_true ⟨False.elim, fun _ => rfl⟩ id
  · exact iff_of_true ⟨False.elim, fun _ => rfl⟩ id
  · rcases decode_cases kind version payload with ⟨unknown, nil⟩ | ⟨size, declared, ⟨long, record⟩ | ⟨short, panics⟩⟩
    · refine iff_of_true ⟨fun ⟨size, other, _⟩ => ?_, fun _ => nil⟩ fun ⟨size, other, _⟩ => ?_
      · rw [unknown] at other
        cases other
      · rw [unknown] at other
        cases other
    · refine iff_of_true ⟨fun _ => record, fun part => absurd ⟨size, declared, long⟩ part⟩ fun ⟨other, same, less⟩ => ?_
      rw [declared] at same
      obtain rfl := Option.some.inj same
      omega
    · refine iff_of_false (fun promised => ?_) fun whole => whole ⟨size, declared, short⟩
      have part : ¬ Whole (kind :: version :: payload) := by
        rintro ⟨other, same, long⟩
        rw [declared] at same
        obtain rfl := Option.some.inj same
        omega
      have nil := promised.2 part
      rw [panics] at nil
      cases nil

end MetadataValue

/-- Scanning always ends, and it ends with a list of values exactly if every batch is sound; a value is decoded as
promised exactly if it does not break off. -/
theorem metadata_decoding_iff (raw b : Bytes) :
    (∃ result, Ends 1 raw.length (decodeValuesTurn raw) 0 [] result ∧ decodeRecordValues raw = result) ∧
      ((∃ values, decodeRecordValues raw = .ok values) ↔ BatchesSound raw 0) ∧
      (MetadataValue.AsPromised b ↔ ¬ MetadataValue.BreaksOff b) := by
  obtain ⟨result, ends, walked⟩ := walk_forward Failure.panics (raw.length + 1)
    (decodeValuesTurn_forward : Forward 1 raw.length (decodeValuesTurn raw) 0 []) (by omega)
  have same : decodeRecordValues raw = result := walked (Nat.succ_pos _)
  refine ⟨⟨result, ends, same⟩, ?_, MetadataValue.asPromised_iff b⟩
  rw [same]
  exact ends_ok_iff ends

def oneRecord (record : Bytes) : Bytes :=
  List.replicate 8 0 ++ beBytes 4 (49 + record.length) ++ List.replicate 45 0 ++ beBytes 4 1 ++ record

def shortBatch : Bytes := List.replicate 61 0

def headerBack : Bytes := oneRecord [0, 0, 0, 0, 1, 1, 2, 199, 1]

def keyBeyond : Bytes := oneRecord ([0, 0, 0, 0] ++ uvarintBytes 0xfffffffffffffffe)

def shortBroker : Bytes := [0, 0]

theorem malformed_metadata : decodeRecordValues shortBatch = .error .panics ∧
    decodeRecordValues headerBack = .error .panics ∧ decodeRecordValues keyBeyond = .error .panics ∧
    MetadataValue.decode shortBroker = none ∧ ¬ MetadataValue.AsPromised shortBroker := by
  have broker : MetadataValue.decode shortBroker = none := by decide +kernel
  have needed : MetadataValue.declaredLength 0 [] = some 18 := by decide
  have part : ¬ MetadataValue.Whole shortBroker := by
    rintro ⟨size, declared, long⟩
    rw [needed] at declared
    obtain rfl := Option.some.inj declared
    cases long
  refine ⟨by decide +kernel, by decide +kernel, by decide +kernel, broker, fun promised => ?_⟩
  have nil := promised.2 part
  rw [broker] at nil
  cases nil

end KafGo.Protocol
