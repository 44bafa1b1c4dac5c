import KafGo.Protocol.Reader

/-!
`DecodeRecordBatch`: the header of a record batch and, after decompression, its records. The produce path
takes producer id, epoch, base sequence and the number of records from here.
-/

namespace KafGo.Protocol
open Lib

structure BatchRecord where
  timestampDelta : Int
  offsetDelta : Int
  key : Bytes
  value : Bytes
  headers : List (Bytes × Bytes)
  deriving DecidableEq, Repr

structure RecordBatch where
  baseOffset : Int
  partitionLeaderEpoch : Int
  magic : Int
  crc : Nat
  attributes : Int
  lastOffsetDelta : Int
  firstTimestamp : Int
  maxTimestamp : Int
  producerId : Int
  producerEpoch : Int
  baseSequence : Int
  records : List BatchRecord
  deriving DecidableEq, Repr

section Decoder

variable [Memory]

/-- `make([]T, n)` for elements of `size` bytes. It refuses some lengths, and without the memory the process dies. -/
def Read.make (size : Nat) (n : Int) : Read Nat := do
  let left ← get
  if n < 0 ∨ ¬ Allocates (n.toNat * size) left then throw .panics else return n.toNat

/-- `make(map[string][]byte, n)`, where a negative hint counts as none. -/
def Read.makeMap (n : Int) : Read Unit := do
  let left ← get
  if Memory.mapBytes n.toNat > Memory.free left then throw .panics else return ()

def makeBytes (n : Int) : Read Nat := Read.make 1 n

/-- `for i := range buf { b, err := r.ReadInt8() ... }`. -/
def readEach : Nat → Read Bytes
  | 0 => pure []
  | n + 1 => do
    let b ← Read.take 1
    return b ++ (← readEach n)

def readEachOrZero : Nat → Read Bytes
  | 0 => pure []
  | n + 1 => do
    let b ← tryCatch (Read.take 1) fun _ => pure [0]
    return b ++ (← readEachOrZero n)

/-- A key or a value, where a length of zero or below means none. -/
def decodeField : Read Bytes := do
  let len ← Read.varint
  if len > 0 then readEach (← makeBytes len) else return []

/-- `headers[string(k)] = v`. -/
def setHeader (headers : List (Bytes × Bytes)) (k v : Bytes) : List (Bytes × Bytes) :=
  headers.filter (fun entry => decide (entry.1 ≠ k)) ++ [(k, v)]

def decodeHeaders : Nat → List (Bytes × Bytes) → Read (List (Bytes × Bytes))
  | 0, headers => pure headers
  | n + 1, headers => do
    let kLen ← Read.orZero Read.varint
    let k ← readEachOrZero (← makeBytes kLen)
    let vLen ← Read.orZero Read.varint
    let v ← readEachOrZero (← makeBytes vLen)
    decodeHeaders n (setHeader headers k v)

def decodeRecord : Read BatchRecord := do
  let _length ← Read.varint
  let _attributes ← Read.int8
  let timestampDelta ← Read.varint
  let offsetDelta ← Read.varint
  let key ← decodeField
  let value ← decodeField
  let headerCount ← Read.varint
  Read.makeMap headerCount
  let headers ← decodeHeaders headerCount.toNat []
  return ⟨timestampDelta, offsetDelta, key, value, headers⟩

def decodeRecords : Nat → Read (List BatchRecord)
  | 0 => pure []
  | n + 1 => do
    let record ← decodeRecord
    return record :: (← decodeRecords n)

/-- `Decompress`, with `snappy.Decode` as a parameter; the other codecs panic. -/
def decompress (snappy : Bytes → Option Bytes) (attributes : Int) (data : Bytes) : Except Failure Bytes :=
  match unsigned 16 attributes % 8 with
  | 0 => .ok data
  | 2 => match snappy data with
    | some out => .ok out
    | none => .error .snappy
  | 1 | 3 | 4 => .error .panics
  | codec => .error (.unknownCodec codec)

def decodeHeader : Read (RecordBatch × Int) := do
  let baseOffset ← Read.int64
  let _batchLength ← Read.int32
  let partitionLeaderEpoch ← Read.int32
  let magic ← Read.int8
  let crc ← Read.uint32
  let attributes ← Read.int16
  let lastOffsetDelta ← Read.int32
  let firstTimestamp ← Read.int64
  let maxTimestamp ← Read.int64
  let producerId ← Read.int64
  let producerEpoch ← Read.int16
  let baseSequence ← Read.int32
  let recordCount ← Read.int32
  return (⟨baseOffset, partitionLeaderEpoch, magic, crc, attributes, lastOffsetDelta, firstTimestamp, maxTimestamp,
    producerId, producerEpoch, baseSequence, []⟩, recordCount)

/-- A `BatchRecord` takes 72 bytes. -/
def decodeRecordBatch (snappy : Bytes → Option Bytes) (raw : Bytes) : Except Failure RecordBatch :=
  let read : Read RecordBatch := do
    let (batch, recordCount) ← decodeHeader
    let count ← Read.make 72 recordCount
    let rawDataRecords ← Read.rawBytes (← Read.remaining)
    let dataRecords ← ExceptT.mk (pure (decompress snappy batch.attributes rawDataRecords))
    set dataRecords
    let records ← decodeRecords count
    return { batch with records := records }
  (read.run.run raw).1

omit [Memory] in
theorem decodeHeader_gives {raw rest : Bytes} {batch : RecordBatch} {recordCount : Int}
    (ok : Read.Gives decodeHeader raw (batch, recordCount) rest) :
    61 ≤ raw.length ∧ recordCount = signed 32 (beNat (slice raw 57 4)) ∧
      batch.attributes = signed 16 (beNat (slice raw 21 2)) := by
  unfold decodeHeader at ok
  iterate 12
    obtain ⟨_, _, field, next⟩ := Read.gives_bind ok
    clear ok
    obtain ⟨_, rfl, rfl⟩ := Read.gives_fixed field
    rename' next => ok
  obtain ⟨count, _, field, returned⟩ := Read.gives_bind ok
  obtain ⟨room, rfl, rfl⟩ := Read.gives_fixed field
  obtain ⟨same, _⟩ := Read.gives_pure returned
  obtain ⟨rfl, rfl⟩ := Prod.mk.inj same
  simp only [List.length_drop] at room
  refine ⟨by omega, ?_, ?_⟩ <;> simp only [slice, List.drop_drop]

theorem Read.make_run (size : Nat) (n : Int) (buf : Bytes) : (Read.make size n).run.run buf =
    if n < 0 ∨ ¬ Allocates (n.toNat * size) buf then (.error .panics, buf) else (.ok n.toNat, buf) := by
  show (if n < 0 ∨ ¬ Allocates (n.toNat * size) buf then _ else _ : Read Nat).run.run buf = _
  split <;> rfl

theorem Read.gives_make {size count : Nat} {n : Int} {buf rest : Bytes} (ok : Gives (make size n) buf count rest) :
    (count : Int) = n ∧ rest = buf := by
  unfold Gives at ok
  rw [make_run] at ok
  split at ok
  · cases ok
  · rename_i made
    cases ok
    exact ⟨Int.toNat_of_nonneg (Int.not_lt.mp fun negative => made (.inl negative)), rfl⟩

theorem decodeRecords_gives {n : Nat} {buf rest : Bytes} {records : List BatchRecord}
    (ok : Read.Gives (decodeRecords n) buf records rest) : records.length = n := by
  induction n generalizing buf rest records with
  | zero =>
    obtain ⟨rfl, _⟩ := Read.gives_pure ok
    rfl
  | succ n ih =>
    obtain ⟨record, _, _, ok⟩ := Read.gives_bind ok
    obtain ⟨others, _, tail, returned⟩ := Read.gives_bind ok
    obtain ⟨rfl, _⟩ := Read.gives_pure returned
    rw [List.length_cons, ih tail]

/-- An accepted batch has a whole header and as many records as the header says. Nothing else of the header is
checked. -/
theorem decodeRecordBatch_ok {snappy : Bytes → Option Bytes} {raw : Bytes} {batch : RecordBatch}
    (ok : decodeRecordBatch snappy raw = .ok batch) :
    61 ≤ raw.length ∧ (batch.records.length : Int) = signed 32 (beNat (slice raw 57 4)) := by
  obtain ⟨⟨header, recordCount⟩, _, first, ok⟩ := Read.gives_bind (Prod.ext ok rfl : Read.Gives _ raw batch _)
  obtain ⟨room, count, _⟩ := decodeHeader_gives first
  dsimp only at ok
  obtain ⟨made, _, allocated, ok⟩ := Read.gives_bind ok
  obtain ⟨_, _, _, ok⟩ := Read.gives_bind ok
  obtain ⟨_, _, _, ok⟩ := Read.gives_bind ok
  obtain ⟨_, _, _, ok⟩ := Read.gives_bind ok
  obtain ⟨_, _, _, ok⟩ := Read.gives_bind ok
  obtain ⟨records, _, decoded, returned⟩ := Read.gives_bind ok
  obtain ⟨rfl, _⟩ := Read.gives_pure returned
  refine ⟨room, ?_⟩
  rw [decodeRecords_gives decoded, ← count, (Read.gives_make allocated).1]

end Decoder

end KafGo.Protocol
