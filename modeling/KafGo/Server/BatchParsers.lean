import KafGo.Protocol.MalformedBatch
import KafGo.Protocol.MetadataBatch
import KafGo.Server.Fetch

/-!
# Three parsers of one encoding

A value of the metadata log is wrapped by `EncodeAsRecordBatch` and patched by `AppendRaw`. The follower takes it out
with `DecodeRecordValues` and counts it with `countRecordsInRecordBatches`, and the produce path reads such a batch with
`DecodeRecordBatch`.
-/

namespace KafGo.Protocol
open Lib Storage

/-! ### `DecodeRecordBatch` on encoded fields -/

namespace Read

variable {α : Type}

theorem fixed_put {n : Nat} (f : Bytes → α) {field : Bytes} (size : field.length = n) (rest : Bytes) :
    (do return f (← take n) : Read α).run.run (field ++ rest) = (.ok (f field), rest) := by
  have taken : (take n).run.run (field ++ rest) = (.ok field, rest) := by
    rw [take_run, if_neg (by rw [List.length_append]; omega), List.take_left' size, List.drop_left' size]
  exact run_ok taken

section Fixed

variable {field : Bytes} (rest : Bytes)

theorem int8_put (size : field.length = 1) : int8.run.run (field ++ rest) = (.ok (signed 8 (beNat field)), rest) :=
  fixed_put _ size rest

theorem int16_put (size : field.length = 2) : int16.run.run (field ++ rest) = (.ok (signed 16 (beNat field)), rest) :=
  fixed_put _ size rest

theorem int32_put (size : field.length = 4) : int32.run.run (field ++ rest) = (.ok (signed 32 (beNat field)), rest) :=
  fixed_put _ size rest

theorem int64_put (size : field.length = 8) : int64.run.run (field ++ rest) = (.ok (signed 64 (beNat field)), rest) :=
  fixed_put _ size rest

theorem uint32_put (size : field.length = 4) : uint32.run.run (field ++ rest) = (.ok (beNat field), rest) :=
  fixed_put _ size rest

end Fixed

theorem varint_put (v : Int64) (rest : Bytes) : varint.run.run (zigzagVarInt v ++ rest) = (.ok v.toInt, rest) := by
  have found := varint_some (takeUvarint_bytes (zigzag v) rest)
  rwa [decoded, unzigzag_zigzag] at found

end Read

theorem decodeHeader_put
    {baseOffset batchLength partitionLeaderEpoch magic crc attributes lastOffsetDelta firstTimestamp maxTimestamp
      producerId producerEpoch baseSequence recordCount : Bytes}
    (rest : Bytes) (s₁ : baseOffset.length = 8) (s₂ : batchLength.length = 4) (s₃ : partitionLeaderEpoch.length = 4)
    (s₄ : magic.length = 1) (s₅ : crc.length = 4) (s₆ : attributes.length = 2) (s₇ : lastOffsetDelta.length = 4)
    (s₈ : firstTimestamp.length = 8) (s₉ : maxTimestamp.length = 8) (s₁₀ : producerId.length = 8)
    (s₁₁ : producerEpoch.length = 2) (s₁₂ : baseSequence.length = 4) (s₁₃ : recordCount.length = 4) :
    decodeHeader.run.run (baseOffset ++ (batchLength ++ (partitionLeaderEpoch ++ (magic ++ (crc ++ (attributes ++
        (lastOffsetDelta ++ (firstTimestamp ++ (maxTimestamp ++ (producerId ++ (producerEpoch ++ (baseSequence ++
        (recordCount ++ rest))))))))))))) =
      (.ok (⟨signed 64 (beNat baseOffset), signed 32 (beNat partitionLeaderEpoch), signed 8 (beNat magic), beNat crc,
        signed 16 (beNat attributes), signed 32 (beNat lastOffsetDelta), signed 64 (beNat firstTimestamp),
        signed 64 (beNat maxTimestamp), signed 64 (beNat producerId), signed 16 (beNat producerEpoch),
        signed 32 (beNat baseSequence), []⟩, signed 32 (beNat recordCount)), rest) := by
  unfold decodeHeader
  rw [Read.run_ok (Read.int64_put _ s₁), Read.run_ok (Read.int32_put _ s₂), Read.run_ok (Read.int32_put _ s₃),
    Read.run_ok (Read.int8_put _ s₄), Read.run_ok (Read.uint32_put _ s₅), Read.run_ok (Read.int16_put _ s₆),
    Read.run_ok (Read.int32_put _ s₇), Read.run_ok (Read.int64_put _ s₈), Read.run_ok (Read.int64_put _ s₉),
    Read.run_ok (Read.int64_put _ s₁₀), Read.run_ok (Read.int16_put _ s₁₁), Read.run_ok (Read.int32_put _ s₁₂),
    Read.run_ok (Read.int32_put _ s₁₃)]
  rfl

theorem decodeField_null (rest : Bytes) : decodeField.run.run (zigzagVarInt (-1) ++ rest) = (.ok [], rest) := by
  unfold decodeField
  rw [Read.run_ok (Read.varint_put (-1) rest)]
  rfl

theorem decodeField_put {v : Bytes} (nonempty : v ≠ []) (short : v.length < 2 ^ 31) (rest : Bytes) :
    decodeField.run.run (zigzagVarInt (Int64.ofNat v.length) ++ (v ++ rest)) = (.ok v, rest) := by
  have positive := List.length_pos_of_ne_nil nonempty
  have made : (makeBytes v.length).run.run (v ++ rest) = (.ok v.length, v ++ rest) := by
    rw [makeBytes_run, if_neg (by simp only [allocates_ample, maxAlloc]; omega), Int.toNat_natCast]
  have bytes : (readEach v.length).run.run (v ++ rest) = (.ok v, rest) := by
    rw [readEach_run, if_pos (by rw [List.length_append]; omega), List.take_left, List.drop_left]
  unfold decodeField
  rw [Read.run_ok (Read.varint_put _ _), Scan.int64_length short]
  show (if (v.length : Int) > 0 then _ else _ : Read Bytes).run.run (v ++ rest) = _
  rw [if_pos (by omega), Read.run_ok made, bytes]

theorem decodeRecord_encoded {v : Bytes} (nonempty : v ≠ []) (short : v.length < 2 ^ 31) :
    decodeRecord.run.run (encodeRecord v) = (.ok ⟨0, 0, [], v, []⟩, []) := by
  have split : encodeRecord v = zigzagVarInt (Int64.ofNat (encodeRecordBody v).length) ++ ([0] ++ (zigzagVarInt 0 ++
      (zigzagVarInt 0 ++
        (zigzagVarInt (-1) ++ (zigzagVarInt (Int64.ofNat v.length) ++ (v ++ (zigzagVarInt 0 ++ []))))))) := by
    simp only [encodeRecord, encodeRecordBody, List.append_assoc, List.append_nil]
  unfold decodeRecord
  rw [split, Read.run_ok (Read.varint_put _ _), Read.run_ok (Read.int8_put _ rfl), Read.run_ok (Read.varint_put 0 _),
    Read.run_ok (Read.varint_put 0 _), Read.run_ok (decodeField_null _), Read.run_ok (decodeField_put nonempty short _),
    Read.run_ok (Read.varint_put 0 _)]
  rfl

theorem decodeRecordBatch_encoded (snappy : Bytes → Option Bytes) (now off : Int) {v : Bytes} (nonempty : v ≠ [])
    (short : v.length < 2 ^ 31) :
    decodeRecordBatch snappy (putBaseOffset off (encodeAsRecordBatch now v)) =
      .ok ⟨wrapSigned 64 off, -1, 2, (crc32c (afterCRCHeader now ++ encodeRecord v)).toNat, 0, 0, wrapSigned 64 now,
        wrapSigned 64 now, -1, -1, -1, [⟨0, 0, [], v, []⟩]⟩ := by
  generalize checksum : (crc32c (afterCRCHeader now ++ encodeRecord v)).toNat = crc
  have small : crc < 2 ^ 32 := by rw [← checksum]; exact UInt32.toNat_lt _
  obtain ⟨len, split⟩ : ∃ len, putBaseOffset off (encodeAsRecordBatch now v) = beBytes 8 (unsigned 64 off) ++
      (beBytes 4 len ++ (beBytes 4 (unsigned 32 (-1)) ++ ([2] ++ (beBytes 4 crc ++ (beBytes 2 0 ++ (beBytes 4 0 ++
      (beBytes 8 (unsigned 64 now) ++ (beBytes 8 (unsigned 64 now) ++ (beBytes 8 (unsigned 64 (-1)) ++
      (beBytes 2 (unsigned 16 (-1)) ++ (beBytes 4 (unsigned 32 (-1)) ++ (beBytes 4 1 ++ encodeRecord v)))))))))))) := by
    unfold putBaseOffset encodeAsRecordBatch
    dsimp only
    rw [checksum]
    simp only [afterCRCHeader, List.append_assoc]
    exact ⟨_, congrArg _ (List.drop_left' (length_beBytes 8 0))⟩
  have header := decodeHeader_put (encodeRecord v) (length_beBytes 8 (unsigned 64 off)) (length_beBytes 4 len)
    (length_beBytes 4 (unsigned 32 (-1))) (rfl : [(2 : UInt8)].length = 1) (length_beBytes 4 crc) (length_beBytes 2 0)
    (length_beBytes 4 0) (length_beBytes 8 (unsigned 64 now)) (length_beBytes 8 (unsigned 64 now))
    (length_beBytes 8 (unsigned 64 (-1))) (length_beBytes 2 (unsigned 16 (-1))) (length_beBytes 4 (unsigned 32 (-1)))
    (length_beBytes 4 1)
  have records : (decodeRecords 1).run.run (encodeRecord v) = (.ok [⟨0, 0, [], v, []⟩], []) := by
    rw [decodeRecords, Read.run_ok (decodeRecord_encoded nonempty short)]
    rfl
  have there : encodeRecord v ≠ [] := by
    intro empty
    have decoded := decodeRecord_encoded nonempty short
    rw [empty] at decoded
    cases decoded
  have offset : signed 64 (beNat (beBytes 8 (unsigned 64 off))) = wrapSigned 64 off := congrArg _ (beNat_unsigned 8 off)
  have time : signed 64 (beNat (beBytes 8 (unsigned 64 now))) = wrapSigned 64 now := congrArg _ (beNat_unsigned 8 now)
  have sum : beNat (beBytes 4 crc) = crc := by rw [beNat_beBytes]; exact Nat.mod_eq_of_lt small
  have none₈ : signed 64 (beNat (beBytes 8 (unsigned 64 (-1)))) = -1 := by decide
  have none₄ : signed 32 (beNat (beBytes 4 (unsigned 32 (-1)))) = -1 := by decide
  have none₂ : signed 16 (beNat (beBytes 2 (unsigned 16 (-1)))) = -1 := by decide
  have zero₄ : signed 32 (beNat (beBytes 4 0)) = 0 := by decide
  have zero₂ : signed 16 (beNat (beBytes 2 0)) = 0 := by decide
  have one : signed 32 (beNat (beBytes 4 1)) = 1 := by decide
  rw [← split, offset, time, sum, none₈, none₄, none₂, zero₄, zero₂, one] at header
  have unpacked : decompress snappy 0 (encodeRecord v) = .ok (encodeRecord v) := rfl
  rw [decodeRecordBatch_eq, batchWith_unpacked header (by simp [allocates_ample, maxAlloc]) there]
  dsimp only
  rw [unpacked]
  show Except.map _ ((decodeRecords 1).run.run (encodeRecord v)).1 = _
  rw [records]
  rfl

end KafGo.Protocol

namespace KafGo.Server
open Lib Protocol Storage

/-- A value of the metadata log, with the clock when it was wrapped and the base offset that was patched in. -/
structure WrappedValue where
  value : Bytes
  now : Int
  baseOffset : Int
  nonempty : value ≠ []
  short : value.length < 2 ^ 31 - 100

namespace WrappedValue

def bytes (w : WrappedValue) : Bytes := putBaseOffset w.baseOffset (encodeAsRecordBatch w.now w.value)

def batch (w : WrappedValue) : Batch := (metadataBatch w.now w.value w.short).patched w.baseOffset

theorem bytes_ne_nil (w : WrappedValue) : w.bytes ≠ [] := by
  have long : 61 ≤ w.bytes.length := w.batch.long
  intro empty
  rw [empty] at long
  cases long

theorem decodeValuesTurn_crosses (w : WrappedValue) :
    Crosses decodeValuesTurn bytes (fun values w => values ++ [w.value]) w := by
  refine ⟨w.bytes_ne_nil, fun before after values => ?_⟩
  have short := w.short
  have record : w.batch.data.drop 61 = encodeRecord w.value :=
    (drop_putBaseOffset (by decide)).trans (encoded_drop w.now w.value)
  obtain ⟨pos, ran⟩ := Scan.records_encoded w.value w.nonempty (by omega) values
  rw [← record] at ran
  exact decodeValuesTurn_between w.batch ran before after

end WrappedValue

open WrappedValue

theorem decodeRecordValues_wrapped (ws : List WrappedValue) :
    decodeRecordValues (ws.flatMap bytes) = .ok (ws.map value) := by
  have walked := walk_foldl Failure.panics (fun w (_ : w ∈ ws) => w.decodeValuesTurn_crosses) []
  rwa [List.foldl_append_eq_append, List.nil_append, ← List.flatMap_def, ← List.map_eq_flatMap] at walked

theorem countRecordsInRecordBatches_wrapped (ws : List WrappedValue) :
    countRecordsInRecordBatches (ws.flatMap bytes) = .ok (wrapSigned 32 ws.length) := by
  have counted := countRecords_foldl (wrapSigned 32) batch ws
  have folded : ∀ (rest : List WrappedValue) (n : Int),
      rest.foldl (fun total w => wrapSigned 32 (total + w.batch.count)) (wrapSigned 32 n) =
        wrapSigned 32 (n + rest.length) := by
    intro rest
    induction rest with
    | nil => intro n; simp
    | cons w rest ih =>
      intro n
      have one : (w.batch.count : Int) = 1 := rfl
      rw [List.foldl_cons, wrapSigned_add, one, ih, List.length_cons, Int.natCast_succ, Int.add_assoc, Int.add_comm 1]
  have total := folded ws 0
  rw [Int.zero_add] at total
  exact counted.trans (congrArg _ total)

/-- All three parsers invert the encoder. Only the counter is too narrow for any number of values. -/
theorem wrapped_values_parsed (snappy : Bytes → Option Bytes) (ws : List WrappedValue) :
    decodeRecordValues (ws.flatMap bytes) = .ok (ws.map value) ∧
      countRecordsInRecordBatches (ws.flatMap bytes) = .ok (wrapSigned 32 ws.length) ∧
      (countRecordsInRecordBatches (ws.flatMap bytes) = .ok (ws.length : Int) ↔ ws.length < 2 ^ 31) ∧
      ∀ w ∈ ws, ∃ batch record, decodeRecordBatch snappy w.bytes = .ok batch ∧ batch.records = [record] ∧
        record.value = w.value ∧ batch.producerId = -1 := by
  have counted := countRecordsInRecordBatches_wrapped ws
  refine ⟨decodeRecordValues_wrapped ws, counted, ?_, fun w _ => ?_⟩
  · rw [counted, Except.ok.injEq, wrapSigned_eq_natCast_iff (by decide) (Nat.le_refl _), Nat.sub_self]
    exact and_iff_left (Nat.dvd_zero _)
  · have short := w.short
    exact ⟨_, _, decodeRecordBatch_encoded snappy w.now w.baseOffset w.nonempty (by omega), rfl, rfl, rfl⟩

def oneByte : WrappedValue := ⟨[0], 0, 0, List.cons_ne_nil _ _, by decide⟩

/-- Two to the 31 such values are counted as a negative number. -/
theorem wrapped_values_overflow :
    countRecordsInRecordBatches ((List.replicate (2 ^ 31) oneByte).flatMap bytes) = .ok (-2 ^ 31) := by
  rw [countRecordsInRecordBatches_wrapped, List.length_replicate]
  rfl

end KafGo.Server
