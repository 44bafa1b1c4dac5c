import KafGo.Lib.Crc32c
import KafGo.Lib.Walk
import KafGo.Protocol.RecordBatch
import KafGo.Storage.Layout

/-!
# Batches of the metadata log

A value is wrapped into a batch of one record when it is appended, and a follower takes the values out of the
batches it fetches with a scanner of its own.
-/

namespace KafGo.Protocol
open Lib Storage

def zigzagVarInt (v : Int64) : Bytes := uvarintBytes (zigzag v)

def encodeRecordBody (value : Bytes) : Bytes :=
  [0] ++ zigzagVarInt 0 ++ zigzagVarInt 0 ++ zigzagVarInt (-1) ++ zigzagVarInt (Int64.ofNat value.length) ++ value ++
    zigzagVarInt 0

def encodeRecord (value : Bytes) : Bytes :=
  zigzagVarInt (Int64.ofNat (encodeRecordBody value).length) ++ encodeRecordBody value

def afterCRCHeader (now : Int) : Bytes :=
  beBytes 2 0 ++ beBytes 4 0 ++ beBytes 8 (unsigned 64 now) ++ beBytes 8 (unsigned 64 now) ++
    beBytes 8 (unsigned 64 (-1)) ++ beBytes 2 (unsigned 16 (-1)) ++ beBytes 4 (unsigned 32 (-1)) ++ beBytes 4 1

def encodeAsRecordBatch (now : Int) (value : Bytes) : Bytes :=
  let afterCRC := afterCRCHeader now ++ encodeRecord value
  let batchLength : Int := 4 + 1 + 4 + afterCRC.length
  beBytes 8 0 ++ beBytes 4 (unsigned 32 batchLength) ++ beBytes 4 (unsigned 32 (-1)) ++ [2] ++
    beBytes 4 (crc32c afterCRC).toNat ++ afterCRC

/-- A step of the byte scanner on its position. No result is a panic. -/
abbrev Scan := StateT Int Option

namespace Scan

def byte (data : Bytes) : Scan (Option UInt8) := do
  let pos ← get
  if pos ≥ data.length then return none
  if pos < 0 then failure
  set (pos + 1)
  return some (data.getD pos.toNat 0)

def varintLoop (data : Bytes) : Nat → UInt64 → UInt64 → Scan (Option Int64)
  | 0, _, _ => return none
  | turns + 1, uv, shift => do
    let some b ← byte data | return none
    let uv := pushDigit uv shift b
    if b < 0x80 then return some (unzigzag uv)
    varintLoop data turns uv (shift + 7)

def varint (data : Bytes) : Scan (Option Int64) := varintLoop data 10 0 0

def skip (n : Int64) : Scan Unit := modify fun pos => wrapSigned 64 (pos + n.toInt)

/-- The value of a record is left out unless it has a positive length and all its bytes are there. -/
def value (data : Bytes) (valLen : Int64) : Scan (List Bytes) := do
  let pos ← get
  if valLen > 0 ∧ wrapSigned 64 (pos + valLen.toInt) ≤ data.length then
    if valLen.toInt > maxAlloc then failure
    skip valLen
    return [slice data pos.toNat valLen.toInt.toNat]
  else return []

/-- Lengths that cannot be read count as zero. -/
def headers (data : Bytes) : Nat → Scan Unit
  | 0 => return ()
  | n + 1 => do
    skip ((← varint data).getD 0)
    skip ((← varint data).getD 0)
    headers data n

/-- The records of a batch, up to the first one that breaks off. -/
def records (data : Bytes) : Nat → List Bytes → Scan (List Bytes)
  | 0, values => return values
  | n + 1, values => do
    let some _length ← varint data | return values
    let some _attributes ← byte data | return values
    let some _timestampDelta ← varint data | return values
    let some _offsetDelta ← varint data | return values
    let some keyLen ← varint data | return values
    if keyLen > 0 then skip keyLen
    let some valLen ← varint data | return values
    let values := values ++ (← value data valLen)
    let some headerCount ← varint data | return values
    headers data headerCount.toInt.toNat
    records data n values

end Scan

def decodeValuesTurn (raw : Bytes) (pos : Int) (values : List Bytes) : Move Failure (List Bytes) :=
  if raw.length - pos < 61 then .stop values
  else
    let totalSize := 12 + uint32At (slice raw pos.toNat 12) 8
    if pos + totalSize > raw.length then .stop values
    else
      let batchBytes := slice raw pos.toNat totalSize
      -- The slices from 57 and from 61 on need a batch of that length.
      if totalSize < 61 then .fail .panics
      else match (Scan.records (batchBytes.drop 61) (uint32At batchBytes 57) values).run 0 with
        | none => .fail .panics
        | some (values, _) => .next totalSize values

/-- Every turn moves on, so the walk always ends. -/
def decodeRecordValues (raw : Bytes) : Except Failure (List Bytes) :=
  walk .panics 1 raw.length (decodeValuesTurn raw) (raw.length + 1) 0 []

/-! ### Scanning what was encoded -/

namespace Scan

theorem byte_at {data before after : Bytes} {b : UInt8} (split : data = before ++ ([b] ++ after)) :
    (byte data).run before.length = some (some b, ((before ++ [b]).length : Int)) := by
  rw [List.singleton_append] at split
  subst split
  have inside : ¬ ((before ++ b :: after).length : Int) ≤ before.length := by
    simp only [List.length_append, List.length_cons]
    omega
  have found : (before ++ b :: after).getD before.length 0 = b := by simp
  unfold byte
  simp only [StateT.run_bind, StateT.run_get, pure_bind, ge_iff_le, if_neg inside,
    if_neg (show ¬ (before.length : Int) < 0 by omega), Int.toNat_natCast, found]
  rw [List.length_append]
  rfl

theorem varintLoop_digits (turns : Nat) : ∀ (before after : Bytes) (uv shift n : UInt64), turns ≤ 10 →
    shift.toNat = 7 * (10 - turns) → uv.toNat < 2 ^ shift.toNat → n.toNat * 2 ^ shift.toNat < 2 ^ 64 →
    1 ≤ turns →
    ∃ w : UInt64, w.toNat = uv.toNat + n.toNat * 2 ^ shift.toNat ∧
      (varintLoop (before ++ uvarintDigits turns n ++ after) turns uv shift).run before.length =
        some (some (unzigzag w), ((before ++ uvarintDigits turns n).length : Int)) := by
  induction turns with
  | zero => intro _ _ _ _ _ _ _ _ _ one; omega
  | succ turns ih =>
    intro before after uv shift n few shiftEq low fits _
    have room : shift.toNat < 64 := by omega
    by_cases last : n < 0x80
    · refine ⟨pushDigit uv shift n.toUInt8, pushDigit_last low room fits last, ?_⟩
      rw [uvarintDigits, if_pos last, List.append_assoc, varintLoop, StateT.run_bind, byte_at rfl]
      simp only [Option.bind_eq_bind, Option.bind_some, if_pos (low_digit n last).1]
      rfl
    · obtain ⟨nextShift, below, rest_fits, value⟩ := pushDigit_more low room fits last
      have large : 128 ≤ n.toNat := Nat.not_lt.mp last
      have narrow : shift.toNat < 63 := by
        by_contra wide
        have top : shift.toNat = 63 := by omega
        rw [top] at fits
        omega
      obtain ⟨w, total, ran⟩ := ih (before ++ [n.toUInt8 ||| 0x80]) after
        (pushDigit uv shift (n.toUInt8 ||| 0x80)) (shift + 7) (n >>> 7) (by omega) (by omega) below rest_fits (by omega)
      refine ⟨w, total.trans value, ?_⟩
      have first : before ++ [n.toUInt8 ||| 0x80] ++ uvarintDigits turns (n >>> 7) ++ after =
          before ++ ([n.toUInt8 ||| 0x80] ++ (uvarintDigits turns (n >>> 7) ++ after)) := by
        simp only [List.append_assoc]
      rw [uvarintDigits, if_neg last, List.append_cons, varintLoop, StateT.run_bind, byte_at first]
      simp only [Option.bind_eq_bind, Option.bind_some, if_neg (high_digit n).1]
      exact ran

theorem varint_at {data before after : Bytes} {v : Int64} (split : data = before ++ (zigzagVarInt v ++ after)) :
    (varint data).run before.length = some (some v, ((before ++ zigzagVarInt v).length : Int)) := by
  subst split
  have bound := (zigzag v).toNat_lt
  obtain ⟨w, value, ran⟩ := varintLoop_digits 10 before after 0 0 (zigzag v) (by decide) rfl (by decide)
    (by simpa using bound) (by decide)
  have same : w = zigzag v := by
    apply UInt64.toNat_inj.mp
    simpa using value
  rw [same, unzigzag_zigzag] at ran
  unfold varint zigzagVarInt uvarintBytes
  rw [← List.append_assoc]
  exact ran

theorem int64_length {n : Nat} (short : n < 2 ^ 31) : (Int64.ofNat n).toInt = n := by
  rw [Int64.toInt_ofNat_of_lt (by omega)]

theorem value_at {data before after v : Bytes} (split : data = before ++ (v ++ after)) (nonempty : v ≠ [])
    (short : v.length < 2 ^ 31) (near : before.length < 2 ^ 31) :
    (value data (Int64.ofNat v.length)).run before.length = some ([v], ((before ++ v).length : Int)) := by
  subst split
  have length := int64_length short
  have positive : Int64.ofNat v.length > 0 := by
    apply Int64.lt_iff_toInt_lt.mpr
    rw [length]
    show (0 : Int) < _
    exact_mod_cast List.length_pos_of_ne_nil nonempty
  have moved : wrapSigned 64 ((before.length : Int) + v.length) = ((before ++ v).length : Int) := by
    rw [← Int.natCast_add, wrapSigned_natCast (by decide) (by omega), List.length_append]
  have inside : wrapSigned 64 ((before.length : Int) + v.length) ≤ (before ++ (v ++ after)).length := by
    rw [moved]
    simp only [List.length_append]
    omega
  have bytes : slice (before ++ (v ++ after)) before.length v.length = v := by
    have start := slice_append_right before (v ++ after) 0 v.length
    rw [Nat.add_zero] at start
    rw [start]
    simp [slice]
  unfold value
  simp only [StateT.run_bind, StateT.run_get, pure_bind, length]
  rw [if_pos ⟨positive, inside⟩, if_neg (by simp only [maxAlloc]; omega)]
  simp only [skip, length, StateT.run_bind, StateT.run_modify, pure_bind, StateT.run_pure, moved,
    Int.toNat_natCast, bytes]
  rfl

theorem records_encoded (v : Bytes) (nonempty : v ≠ []) (short : v.length < 2 ^ 31) (values : List Bytes) :
    ∃ pos, (records (encodeRecord v) 1 values).run 0 = some (values ++ [v], pos) := by
  generalize bodyLength : Int64.ofNat (encodeRecordBody v).length = total
  generalize valLenEq : Int64.ofNat v.length = valLen
  have data : encodeRecord v = [] ++ (zigzagVarInt total ++ ([0] ++ (zigzagVarInt 0 ++ (zigzagVarInt 0 ++
      (zigzagVarInt (-1) ++ (zigzagVarInt valLen ++ (v ++ (zigzagVarInt 0 ++ [])))))))) := by
    unfold encodeRecord
    rw [bodyLength]
    unfold encodeRecordBody
    rw [valLenEq]
    simp only [List.append_assoc, List.append_nil, List.nil_append]
  generalize encodeRecord v = d at data ⊢
  have r₁ := varint_at data
  rw [← List.append_assoc] at data
  have r₂ := byte_at data
  rw [← List.append_assoc] at data
  have r₃ := varint_at data
  rw [← List.append_assoc] at data
  have r₄ := varint_at data
  rw [← List.append_assoc] at data
  have r₅ := varint_at data
  rw [← List.append_assoc] at data
  have r₆ := varint_at data
  rw [← List.append_assoc] at data
  have r₇ := value_at data nonempty short (by
    have digits : ∀ w, (zigzagVarInt w).length ≤ 10 := fun w =>
      length_uvarintDigits 10 (by decide) (by have := (zigzag w).toNat_lt; omega)
    have d₁ := digits total
    have d₂ := digits 0
    have d₃ := digits (-1)
    have d₄ := digits valLen
    simp only [List.length_append, List.length_nil, List.length_singleton]
    omega)
  rw [valLenEq] at r₇
  rw [← List.append_assoc] at data
  have r₈ := varint_at data
  have start : ((([] : Bytes).length : Nat) : Int) = 0 := rfl
  rw [start] at r₁
  have null : ¬ (-1 : Int64) > 0 := by decide
  simp only [records, StateT.run_bind, Option.bind_eq_bind, r₁, r₂, r₃, r₄, r₅, r₆, r₇, r₈,
    Option.bind_some, if_neg null, StateT.run_pure]
  exact ⟨_, rfl⟩

end Scan

theorem zigzag_length {n : Nat} (short : n < 2 ^ 31) : (zigzagVarInt (Int64.ofNat n)).length ≤ 5 :=
  length_uvarintDigits 10 (by decide) (by rw [zigzag_ofNat (by omega)]; omega)

theorem length_encodeRecord {value : Bytes} (short : value.length < 2 ^ 31 - 100) :
    (encodeRecord value).length ≤ value.length + 15 := by
  have first : (zigzagVarInt 0).length = 1 := by decide
  have null : (zigzagVarInt (-1)).length = 1 := by decide
  have valLen := zigzag_length (n := value.length) (by omega)
  have body : (encodeRecordBody value).length ≤ value.length + 10 := by
    simp only [encodeRecordBody, List.length_append, List.length_singleton, first, null]
    omega
  have total := zigzag_length (n := (encodeRecordBody value).length) (by omega)
  rw [encodeRecord, List.length_append]
  omega

theorem length_afterCRCHeader (now : Int) : (afterCRCHeader now).length = 40 := by
  simp only [afterCRCHeader, List.length_append, length_beBytes]

theorem length_encodeAsRecordBatch (now : Int) (value : Bytes) :
    (encodeAsRecordBatch now value).length = 61 + (encodeRecord value).length := by
  simp only [encodeAsRecordBatch, List.length_append, length_afterCRCHeader, length_beBytes, List.length_singleton]
  omega

section Fields

variable (now : Int) (value : Bytes)

theorem encoded_batchLength (short : value.length < 2 ^ 31 - 100) :
    uint32At (encodeAsRecordBatch now value) offsetBatchLength = (encodeAsRecordBatch now value).length - 12 := by
  have record := length_encodeRecord short
  have length : ((4 : Int) + 1 + 4 + (afterCRCHeader now ++ encodeRecord value).length) =
      ((49 + (encodeRecord value).length : Nat) : Int) := by
    rw [List.length_append, length_afterCRCHeader]
    omega
  rw [length_encodeAsRecordBatch]
  unfold encodeAsRecordBatch
  dsimp only
  rw [length, unsigned_natCast, Nat.mod_eq_of_lt (by omega)]
  simp only [List.append_assoc]
  rw [uint32At_field (by omega) (by simp [offsetBatchLength])]
  omega

theorem encoded_lastOffsetDelta : uint32At (encodeAsRecordBatch now value) offsetLastOffsetDelta = 0 := by
  generalize encoded : encodeAsRecordBatch now value = data
  unfold encodeAsRecordBatch afterCRCHeader at encoded
  dsimp only at encoded
  generalize unsigned 32 _ = batchLength at encoded
  generalize UInt32.toNat _ = crc at encoded
  have split : data = (beBytes 8 0 ++ beBytes 4 batchLength ++ beBytes 4 (unsigned 32 (-1)) ++ [2] ++ beBytes 4 crc ++
      beBytes 2 0) ++ (beBytes 4 0 ++ (beBytes 8 (unsigned 64 now) ++ beBytes 8 (unsigned 64 now) ++
      beBytes 8 (unsigned 64 (-1)) ++ beBytes 2 (unsigned 16 (-1)) ++ beBytes 4 (unsigned 32 (-1)) ++ beBytes 4 1 ++
      encodeRecord value)) := by
    rw [← encoded]
    simp only [List.append_assoc]
  rw [split, uint32At_field (by decide) (by simp [offsetLastOffsetDelta])]

theorem encoded_records : ∃ header : Bytes, header.length = 57 ∧
    encodeAsRecordBatch now value = header ++ (beBytes 4 1 ++ encodeRecord value) := by
  unfold encodeAsRecordBatch afterCRCHeader
  dsimp only
  generalize unsigned 32 _ = batchLength
  generalize UInt32.toNat _ = crc
  refine ⟨beBytes 8 0 ++ beBytes 4 batchLength ++ beBytes 4 (unsigned 32 (-1)) ++ [2] ++ beBytes 4 crc ++ beBytes 2 0 ++
    beBytes 4 0 ++ beBytes 8 (unsigned 64 now) ++ beBytes 8 (unsigned 64 now) ++ beBytes 8 (unsigned 64 (-1)) ++
    beBytes 2 (unsigned 16 (-1)) ++ beBytes 4 (unsigned 32 (-1)), by simp, ?_⟩
  simp only [List.append_assoc]

theorem encoded_count : uint32At (encodeAsRecordBatch now value) batchRecordCountOff = 1 := by
  obtain ⟨header, length, split⟩ := encoded_records now value
  rw [split]
  exact uint32At_field (by decide) length

theorem encoded_drop : (encodeAsRecordBatch now value).drop 61 = encodeRecord value := by
  obtain ⟨header, length, split⟩ := encoded_records now value
  rw [split, ← List.append_assoc, List.drop_left' (by simp [length])]

end Fields

def metadataBatch (now : Int) (value : Bytes) (short : value.length < 2 ^ 31 - 100) : Batch where
  data := encodeAsRecordBatch now value
  count := 1
  long := by rw [length_encodeAsRecordBatch]; omega
  short := by
    have record := length_encodeRecord short
    rw [length_encodeAsRecordBatch]
    omega
  batchLength := encoded_batchLength now value short
  counted := encoded_count now value
  positive := Nat.le_refl 1
  countFits := by decide
  lastOffsetDelta := encoded_lastOffsetDelta now value

/-- The one record of a stored batch carries the value. -/
structure Carries (f : StoredBatch) (v : Bytes) : Prop where
  one : f.count = 1
  record : f.data.drop 61 = encodeRecord v
  nonempty : v ≠ []
  short : v.length < 2 ^ 31 - 100

theorem metadataBatch_carries (now : Int) {v : Bytes} (nonempty : v ≠ []) (short : v.length < 2 ^ 31 - 100)
    {off : Nat} (fits : off + 1 < 2 ^ 63) : Carries ((metadataBatch now v short).storedAt off fits) v where
  one := rfl
  record := (drop_putBaseOffset (by decide)).trans (encoded_drop now v)
  nonempty := nonempty
  short := short

theorem decodeValuesTurn_between (b : Batch) {values found : List Bytes} {pos : Int}
    (ran : (Scan.records (b.data.drop 61) b.count values).run 0 = some (found, pos)) (before after : Bytes) :
    decodeValuesTurn (before ++ (b.data ++ after)) before.length values = .next b.data.length found := by
  have long := b.long
  have size : 12 + uint32At (slice b.data 0 12) 8 = b.data.length := by
    have declared : uint32At (slice b.data 0 12) 8 = b.data.length - 12 := b.declared (Nat.le_refl 12)
    omega
  have whole : slice b.data 0 b.data.length = b.data := List.take_of_length_le (Nat.le_refl _)
  have count : uint32At b.data 57 = b.count := b.counted
  have total : (before ++ (b.data ++ after)).length = before.length + (b.data.length + after.length) := by
    rw [List.length_append, List.length_append]
  unfold decodeValuesTurn
  rw [if_neg (by omega), Int.toNat_natCast, b.slice_between before after (by omega), size]
  dsimp only
  rw [if_neg (by omega), if_neg (by omega), b.slice_between before after (Nat.le_refl _), whole, count, ran]

theorem decodeValuesTurn_batch {fs pre post : List StoredBatch} {f : StoredBatch} {v : Bytes}
    (split : fs = pre ++ f :: post) (carries : Carries f v) (values : List Bytes) :
    decodeValuesTurn (bytesOf fs) ((pre.map StoredBatch.length).sum : Nat) values =
      .next f.length (values ++ [v]) := by
  obtain ⟨pos, ran⟩ := Scan.records_encoded v carries.nonempty (by have := carries.short; omega) values
  rw [← carries.record, ← carries.one] at ran
  rw [split, bytesOf_append, bytesOf_cons, ← length_bytesOf]
  exact decodeValuesTurn_between f.toBatch ran (bytesOf pre) (bytesOf post)

theorem decodeRecordValues_batches {fs : List StoredBatch} {vs : List Bytes} (carry : List.Forall₂ Carries fs vs) :
    decodeRecordValues (bytesOf fs) = .ok vs := by
  have enough := length_le_bytesOf fs
  obtain ⟨spare, fuelEq⟩ : ∃ spare, (bytesOf fs).length + 1 = spare + 1 + fs.length :=
    ⟨(bytesOf fs).length - fs.length, by omega⟩
  obtain ⟨values, found, walked⟩ := walk_cross Failure.panics 1 (bytesOf fs).length 0 (decodeValuesTurn (bytesOf fs))
    (spare + 1) [] StoredBatch.length (fun crossed values => ∃ rest, vs = values ++ rest ∧
      List.Forall₂ Carries crossed values)
    fs ⟨vs, rfl, .nil⟩ (by
      rintro crossed f after values split ⟨rest, parts, crossedCarry⟩
      have room := header_room [] [] split
      have long := f.length_pos
      simp only [List.nil_append, List.append_nil, List.length_nil, Int.natCast_zero, Int.zero_add] at room
      have behind : List.Forall₂ Carries (f :: after) rest := by
        have lengths := crossedCarry.length_eq
        have dropped := List.forall₂_drop crossed.length carry
        rwa [split, parts, List.drop_left, lengths, List.drop_left] at dropped
      cases behind with
      | @cons _ v _ later head tail =>
        rw [Int.zero_add]
        refine ⟨by omega, values ++ [v], decodeValuesTurn_batch split head values, later, by rw [parts]; simp, ?_⟩
        exact List.rel_append crossedCarry (.cons head .nil))
  obtain ⟨rest, parts, all⟩ := found
  have none_left : rest = [] := by
    have lengths := all.length_eq
    have total := carry.length_eq
    rw [parts, List.length_append] at total
    exact List.length_eq_zero_iff.mp (by omega)
  unfold decodeRecordValues
  rw [fuelEq, walked, walk_exit (by rw [length_bytesOf]; omega), parts, none_left, List.append_nil]

end KafGo.Protocol
