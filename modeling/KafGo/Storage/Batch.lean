import KafGo.Lib.Bytes

/-!
Record batches as the broker reads them: fixed offsets into the header, relative to the start of the
batch. Every walker of a segment file reads some of these fields.
-/

namespace KafGo.Storage
open Lib

def offsetBaseOffset : Nat := 0
def offsetBatchLength : Nat := 8
def offsetLastOffsetDelta : Nat := 23
def headerSizeUpToMagic : Nat := 17
def headerSizeWithDelta : Nat := 27
def headerSizeWithProducerInfo : Nat := 57
def batchLogOverhead : Nat := 12
def batchHeaderReadSize : Nat := 61
def batchRecordCountOff : Nat := 57

def uint64At (buf : Bytes) (off : Nat) : Nat := beNat (slice buf off 8)
def uint32At (buf : Bytes) (off : Nat) : Nat := beNat (slice buf off 4)
def uint16At (buf : Bytes) (off : Nat) : Nat := beNat (slice buf off 2)
def int64At (buf : Bytes) (off : Nat) : Int := signed 64 (uint64At buf off)
def int32At (buf : Bytes) (off : Nat) : Int := signed 32 (uint32At buf off)
def int16At (buf : Bytes) (off : Nat) : Int := signed 16 (uint16At buf off)

/-- `binary.BigEndian.PutUint64(data[0:8], uint64(baseOffset))`. -/
def putBaseOffset (baseOffset : Int) (data : Bytes) : Bytes :=
  beBytes 8 (unsigned 64 baseOffset) ++ data.drop 8

/-- A well-formed record batch: the declared length is the real one, and the record count agrees
with `LastOffsetDelta`. -/
structure Batch where
  data : Bytes
  count : Nat
  long : 61 ≤ data.length
  short : data.length < 2 ^ 31 + 12
  batchLength : uint32At data offsetBatchLength = data.length - 12
  counted : uint32At data batchRecordCountOff = count
  positive : 1 ≤ count
  countFits : count < 2 ^ 31
  lastOffsetDelta : uint32At data offsetLastOffsetDelta = count - 1

/-- Whether bytes are a well-formed batch of `count` records. -/
def Batch.check (data : Bytes) (count : Nat) : Bool :=
  decide (61 ≤ data.length ∧ data.length < 2 ^ 31 + 12 ∧ uint32At data offsetBatchLength = data.length - 12 ∧
    uint32At data batchRecordCountOff = count ∧ 1 ≤ count ∧ count < 2 ^ 31 ∧
    uint32At data offsetLastOffsetDelta = count - 1)

def Batch.ofBytes (data : Bytes) (count : Nat) (checked : Batch.check data count = true) : Batch where
  data := data
  count := count
  long := (of_decide_eq_true checked).1
  short := (of_decide_eq_true checked).2.1
  batchLength := (of_decide_eq_true checked).2.2.1
  counted := (of_decide_eq_true checked).2.2.2.1
  positive := (of_decide_eq_true checked).2.2.2.2.1
  countFits := (of_decide_eq_true checked).2.2.2.2.2.1
  lastOffsetDelta := (of_decide_eq_true checked).2.2.2.2.2.2

/-- A batch with its place in the log: the base offset its header carries, and offsets that stay
inside `int64`. -/
structure StoredBatch extends Batch where
  base : Nat
  based : uint64At data offsetBaseOffset = base
  fits : base + count < 2 ^ 63

theorem beNat_slice_lt (buf : Bytes) (off w : Nat) : beNat (slice buf off w) < 256 ^ w := by
  have bound := beNat_lt (slice buf off w)
  have short : (slice buf off w).length ≤ w := by simp [slice]
  have power : 256 ^ (slice buf off w).length ≤ 256 ^ w := Nat.pow_le_pow_right (by decide) short
  omega

theorem int64At_fits (buf : Bytes) (off : Nat) : -2 ^ 63 ≤ int64At buf off ∧ int64At buf off < 2 ^ 63 :=
  signed_fits (by decide) (beNat_slice_lt buf off 8)

theorem int32At_fits (buf : Bytes) (off : Nat) : -2 ^ 31 ≤ int32At buf off ∧ int32At buf off < 2 ^ 31 :=
  signed_fits (by decide) (beNat_slice_lt buf off 4)

theorem int16At_fits (buf : Bytes) (off : Nat) : -2 ^ 15 ≤ int16At buf off ∧ int16At buf off < 2 ^ 15 :=
  signed_fits (by decide) (beNat_slice_lt buf off 2)

theorem int64At_here (x : Int) (rest : Bytes) : int64At (beBytes 8 (unsigned 64 x) ++ rest) 0 = wrapSigned 64 x := by
  unfold int64At uint64At
  rw [slice_here (length_beBytes 8 _), beNat_unsigned 8, wrapSigned]

theorem int32At_here (x : Int) (rest : Bytes) : int32At (beBytes 4 (unsigned 32 x) ++ rest) 0 = wrapSigned 32 x := by
  unfold int32At uint32At
  rw [slice_here (length_beBytes 4 _), beNat_unsigned 4, wrapSigned]

theorem int16At_here (x : Int) (rest : Bytes) : int16At (beBytes 2 (unsigned 16 x) ++ rest) 0 = wrapSigned 16 x := by
  unfold int16At uint16At
  rw [slice_here (length_beBytes 2 _), beNat_unsigned 2, wrapSigned]

variable {a b data : Bytes} {k off pos n : Nat}

theorem int64At_skip (size : a.length = k) (off : Nat) :
    int64At (a ++ b) (k + off) = int64At b off := by
  unfold int64At uint64At
  rw [slice_skip size]

theorem int32At_skip (size : a.length = k) (off : Nat) :
    int32At (a ++ b) (k + off) = int32At b off := by
  unfold int32At uint32At
  rw [slice_skip size]

theorem int16At_skip (size : a.length = k) (off : Nat) :
    int16At (a ++ b) (k + off) = int16At b off := by
  unfold int16At uint16At
  rw [slice_skip size]

theorem uint64At_slice {buf : Bytes} (inside : off + 8 ≤ n) :
    uint64At (slice buf pos n) off = uint64At buf (pos + off) := by
  unfold uint64At
  rw [slice_slice inside]

theorem uint32At_slice {buf : Bytes} (inside : off + 4 ≤ n) :
    uint32At (slice buf pos n) off = uint32At buf (pos + off) := by
  unfold uint32At
  rw [slice_slice inside]

theorem uint32At_append (inside : off + 4 ≤ a.length) :
    uint32At (a ++ b) off = uint32At a off := by
  unfold uint32At
  rw [slice_append_left inside]

theorem uint32At_field {before after : Bytes} (small : n < 2 ^ 32) (position : before.length = off) :
    uint32At (before ++ (beBytes 4 n ++ after)) off = n := by
  have start := slice_append_right before (beBytes 4 n ++ after) 0 4
  rw [Nat.add_zero, position] at start
  unfold uint32At
  have whole : slice (beBytes 4 n) 0 4 = beBytes 4 n := List.take_of_length_le (by simp)
  rw [start, slice_append_left (by simp), whole, beNat_beBytes]
  omega

theorem length_putBaseOffset (long : 8 ≤ data.length) (off : Int) :
    (putBaseOffset off data).length = data.length := by
  simp only [putBaseOffset, List.length_append, length_beBytes, List.length_drop]
  omega

theorem slice_putBaseOffset {off : Int} (after : 8 ≤ pos) :
    slice (putBaseOffset off data) pos n = slice data pos n := by
  have eight : (beBytes 8 (unsigned 64 off)).length = 8 := length_beBytes 8 _
  obtain ⟨k, rfl⟩ : ∃ k, pos = 8 + k := ⟨pos - 8, by omega⟩
  unfold putBaseOffset
  have moved := slice_append_right (beBytes 8 (unsigned 64 off)) (data.drop 8) k n
  rw [eight] at moved
  rw [moved]
  unfold slice
  rw [List.drop_drop]

theorem drop_putBaseOffset {off : Int} (after : 8 ≤ k) :
    (putBaseOffset off data).drop k = data.drop k := by
  obtain ⟨k, rfl⟩ : ∃ n, k = 8 + n := ⟨k - 8, by omega⟩
  have eight : (beBytes 8 (unsigned 64 off)).length = 8 := length_beBytes 8 _
  unfold putBaseOffset
  rw [← List.drop_drop, List.drop_left' eight, List.drop_drop]

theorem uint32At_putBaseOffset {off : Int} (after : 8 ≤ pos) :
    uint32At (putBaseOffset off data) pos = uint32At data pos := by
  unfold uint32At
  rw [slice_putBaseOffset after]

theorem uint64At_putBaseOffset_zero (fits : off < 2 ^ 63) :
    uint64At (putBaseOffset off data) 0 = off := by
  unfold uint64At putBaseOffset
  rw [slice_append_left (by rw [length_beBytes]), unsigned_natCast]
  unfold slice
  rw [List.drop_zero, List.take_of_length_le (by rw [length_beBytes]), beNat_beBytes]
  omega

theorem putBaseOffset_same (long : 8 ≤ data.length) (based : uint64At data 0 = off) :
    putBaseOffset off data = data := by
  have eight : (data.take 8).length = 8 := by simp; omega
  have small : off < 256 ^ 8 := by
    have bound := beNat_lt (data.take 8)
    rw [eight] at bound
    rw [← based]
    exact bound
  have field : beBytes 8 off = data.take 8 := by
    have round := beBytes_beNat (data.take 8)
    rw [eight] at round
    rw [← based]
    exact round
  unfold putBaseOffset
  rw [unsigned_natCast, Nat.mod_eq_of_lt (by omega), field, List.take_append_drop]

/-- A batch with any base offset patched in. -/
def Batch.patched (b : Batch) (off : Int) : Batch where
  data := putBaseOffset off b.data
  count := b.count
  long := by rw [length_putBaseOffset (by have := b.long; omega)]; exact b.long
  short := by rw [length_putBaseOffset (by have := b.long; omega)]; exact b.short
  batchLength := by
    rw [length_putBaseOffset (by have := b.long; omega), uint32At_putBaseOffset (by decide)]
    exact b.batchLength
  counted := by rw [uint32At_putBaseOffset (by decide)]; exact b.counted
  positive := b.positive
  countFits := b.countFits
  lastOffsetDelta := by rw [uint32At_putBaseOffset (by decide)]; exact b.lastOffsetDelta

/-- A batch as `AppendRaw` stores it at offset `off`. -/
def Batch.storedAt (b : Batch) (off : Nat) (fits : off + b.count < 2 ^ 63) : StoredBatch where
  toBatch := b.patched off
  base := off
  based := uint64At_putBaseOffset_zero (by omega)
  fits := fits

theorem Batch.slice_between (b : Batch) (before after : Bytes) (inside : n ≤ b.data.length) :
    slice (before ++ (b.data ++ after)) before.length n = slice b.data 0 n := by
  have start := slice_append_right before (b.data ++ after) 0 n
  rw [Nat.add_zero] at start
  rw [start, slice_append_left (by rw [Nat.zero_add]; exact inside)]

theorem Batch.declared (b : Batch) (read : 12 ≤ n) :
    uint32At (slice b.data 0 n) offsetBatchLength = b.data.length - 12 := by
  rw [uint32At_slice (by simpa [offsetBatchLength] using read), Nat.zero_add, b.batchLength]

namespace StoredBatch

def length (f : StoredBatch) : Nat := f.data.length

theorem length_pos (f : StoredBatch) : 61 ≤ f.length := f.long

variable {n : Nat}

theorem header_baseOffset (f : StoredBatch) (read : 8 ≤ n) :
    int64At (slice f.data 0 n) offsetBaseOffset = f.base := by
  have fits := f.fits
  unfold int64At
  rw [uint64At_slice (by simpa [offsetBaseOffset] using read), Nat.zero_add, f.based,
    signed_of_lt (by omega)]

theorem header_uint32 (f : StoredBatch) {off : Nat} (read : off + 4 ≤ n) :
    uint32At (slice f.data 0 n) off = uint32At f.data off := by
  rw [uint32At_slice read, Nat.zero_add]

theorem header_batchLength (f : StoredBatch) (read : 12 ≤ n) :
    uint32At (slice f.data 0 n) offsetBatchLength = f.length - 12 := by
  rw [f.header_uint32 (by simpa [offsetBatchLength] using read), f.batchLength]
  rfl

theorem header_totalLen (f : StoredBatch) (read : 12 ≤ n) :
    (12 : Int) + int32At (slice f.data 0 n) offsetBatchLength = f.length := by
  have long := f.long
  have short := f.short
  unfold int32At
  rw [f.header_batchLength read, signed_of_lt (by unfold length; omega)]
  unfold length
  omega

theorem header_lastOffsetDelta (f : StoredBatch) (read : 27 ≤ n) :
    int32At (slice f.data 0 n) offsetLastOffsetDelta = (f.count - 1 : Nat) := by
  have countFits := f.countFits
  unfold int32At
  rw [f.header_uint32 (by simpa [offsetLastOffsetDelta] using read), f.lastOffsetDelta,
    signed_of_lt (by omega)]

theorem header_recordCount (f : StoredBatch) (read : 61 ≤ n) :
    uint32At (slice f.data 0 n) batchRecordCountOff = f.count := by
  rw [f.header_uint32 (by simpa [batchRecordCountOff] using read), f.counted]

end StoredBatch

end KafGo.Storage
