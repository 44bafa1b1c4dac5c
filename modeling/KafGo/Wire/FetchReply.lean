import KafGo.Storage.Clip
import KafGo.Wire.Request

/-!
# The reply to a fetch

`HandleFetchApiKeys` does not build a `FetchResponse`. It writes the response in pieces, with file regions between
them that are sent without a copy. The bytes are those of the encoded response with the records in it.
-/

namespace KafGo.Wire
open Lib
open Storage (RecordsRegion)

/-- A region that is not empty, with its bytes in the file. -/
structure FileRegion where
  region : RecordsRegion
  nonempty : 0 < region.size
  start : 0 ≤ region.fileOffset
  inside : region.fileOffset + region.size ≤ region.file.length
  fits : region.size ≤ maxAlloc

def FileRegion.bytes (f : FileRegion) : Bytes := f.region.bytes

theorem FileRegion.length_bytes (f : FileRegion) : (f.bytes.length : Int) = f.region.size := by
  have := f.nonempty
  have := f.start
  have := f.inside
  simp only [bytes, RecordsRegion.bytes, slice, List.length_take, List.length_drop]
  omega

structure PartResult where
  pr : FetchPartitionResponse
  region : Option FileRegion

instance : Sized PartResult := .ofBytes 120

structure TopicResult where
  topicId : UUID
  parts : Slice PartResult

instance : Sized TopicResult := .ofBytes 56

/-- `EncodePartitionPreRecords`. -/
def FetchPartitionResponse.encodePreRecords (p : FetchPartitionResponse) (recordsSize : Int) : Bytes :=
  writeInt32 p.partitionIndex ++ writeInt16 p.errorCode ++ writeInt64 p.highWatermark ++
    writeInt64 p.lastStableOffset ++ writeInt64 p.logStartOffset ++
    writeCompactArray p.abortedTransactions AbortedTransaction.encode ++ writeInt32 p.preferredReadReplica ++
    writeUVarInt (if recordsSize < 0 then 0 else .ofNat (unsigned 64 (recordsSize + 1)))

/-- `EncodePartitionPostRecords`. -/
def FetchPartitionResponse.encodePostRecords (p : FetchPartitionResponse) : Bytes := p.encodeTaggedFields

def FetchResponse.encodeHeader (f : FetchResponse) (topicsLen : Nat) : Bytes :=
  writeInt32 f.throttleTimeMs ++ writeInt16 f.errorCode ++ writeInt32 f.sessionId ++ writeCompactArrayLen topicsLen

def FetchResponse.encodeFooter (f : FetchResponse) : Bytes := f.encodeTaggedFields

inductive IoSegment where
  | data (bytes : Bytes)
  | file (f : FileRegion)

namespace IoSegment

def size : IoSegment → Int
  | data bytes => bytes.length
  | file f => f.region.size

def bytes : IoSegment → Bytes
  | data bytes => bytes
  | file f => f.bytes

theorem size_eq (s : IoSegment) : s.size = s.bytes.length := by
  cases s with
  | data bytes => rfl
  | file f => exact f.length_bytes.symm

end IoSegment

structure Assembly where
  segs : List IoSegment
  w : Bytes

namespace Assembly

def write (bytes : Bytes) (a : Assembly) : Assembly := { a with w := a.w ++ bytes }

/-- The writer is copied into a segment and reset. -/
def snapshot (a : Assembly) : Assembly :=
  if a.w.length = 0 then a else ⟨a.segs ++ [.data a.w], []⟩

def append (f : FileRegion) (a : Assembly) : Assembly := { a with segs := a.segs ++ [.file f] }

def part (a : Assembly) (p : PartResult) : Assembly :=
  match p.region with
  | some f => ((a.write (p.pr.encodePreRecords f.region.size)).snapshot.append f).write p.pr.encodePostRecords
  | none => (a.write (p.pr.encodePreRecords (-1))).write p.pr.encodePostRecords

def topic (a : Assembly) (t : TopicResult) : Assembly :=
  let opened := (a.write (writeUUID t.topicId)).write (writeCompactArrayLen t.parts.elems.length)
  (t.parts.elems.foldl part opened).write writeEmptyTaggedFields

end Assembly

/-- The fields of the response that the handler sets. -/
def fetchResponse (sessionId : Int32) : FetchResponse := ⟨0, 0, sessionId, .nil, .nil⟩

def assemble (resp : FetchResponse) (topics : List TopicResult) (a : Assembly) : Assembly :=
  ((topics.foldl Assembly.topic (a.write (resp.encodeHeader topics.length))).write resp.encodeFooter).snapshot

/-- The segments that `HandleFetchApiKeys` builds. -/
def fetchSegments (sessionId : Int32) (topics : Slice TopicResult) : List IoSegment :=
  (assemble (fetchResponse sessionId) topics.elems ⟨[], []⟩).segs

structure ResponseHeader where
  correlationId : Int32
  apiVersion : Int16
  apiKey : Int16

def ResponseHeader.encode (h : ResponseHeader) : Bytes :=
  writeInt32 h.correlationId ++ if isFlexible h.apiKey h.apiVersion then writeEmptyTaggedFields else []

def totalPayload (segs : List IoSegment) : Int := segs.foldl (fun total s => wrapSigned 64 (total + s.size)) 0

/-- `uint32(int64(len(rhdrBytes)) + totalPayload)`, big-endian. -/
def frameSize (rhdr : Bytes) (segs : List IoSegment) : Bytes :=
  beBytes 4 (unsigned 32 (wrapSigned 64 (rhdr.length + totalPayload segs)))

def payload (segs : List IoSegment) : Bytes := segs.flatMap IoSegment.bytes

def reply (header : ResponseHeader) (segs : List IoSegment) : Bytes :=
  frameSize header.encode segs ++ header.encode ++ payload segs

/-- `WriteFraming` of a response that is encoded as a whole. -/
def writeFraming (header : ResponseHeader) (response : Bytes) : Bytes :=
  beBytes 4 (unsigned 32 (header.encode ++ response).length) ++ (header.encode ++ response)

def FileRegion.records (f : FileRegion) : Slice UInt8 :=
  ⟨f.bytes, by
    have := f.length_bytes
    have := f.fits
    rw [show Sized.size UInt8 = 1 from rfl]
    omega⟩

def PartResult.response (p : PartResult) : FetchPartitionResponse :=
  { p.pr with records := p.region.map FileRegion.records }

def TopicResult.response (t : TopicResult) : FetchTopicResponse :=
  ⟨t.topicId, t.parts.map PartResult.response (by decide)⟩

def plainResponse (sessionId : Int32) (topics : Slice TopicResult) : FetchResponse :=
  { fetchResponse sessionId with responses := topics.map TopicResult.response (by decide) }

theorem FileRegion.encode_between (f : FileRegion) (pr : FetchPartitionResponse) :
    pr.encodePreRecords f.region.size ++ f.bytes ++ pr.encodePostRecords =
      { pr with records := some f.records }.encode := by
  have length := f.length_bytes
  have positive := f.nonempty
  have fits : f.region.size ≤ 2 ^ 48 := f.fits
  have word : unsigned 64 (f.region.size + 1) = f.bytes.length + 1 := by
    rw [← length]
    exact (unsigned_natCast 64 (f.bytes.length + 1)).trans (Nat.mod_eq_of_lt (by omega))
  simp only [FetchPartitionResponse.encodePreRecords, FetchPartitionResponse.encodePostRecords,
    FetchPartitionResponse.encode, writeCompactRecords, writeCompact, FileRegion.records, List.append_assoc]
  rw [if_neg (by omega), word]
  rfl

namespace Assembly

def content (a : Assembly) : Bytes := payload a.segs ++ a.w

/-- The step appends the bytes to the content. -/
def Emits (f : Assembly → Assembly) (bytes : Bytes) : Prop := ∀ a, (f a).content = a.content ++ bytes

theorem emits_write (bytes : Bytes) : Emits (write bytes) bytes := by
  intro a
  simp [content, write]

theorem snapshot_w (a : Assembly) : a.snapshot.w = [] := by
  unfold snapshot
  split
  · exact List.length_eq_zero_iff.mp (by assumption)
  · rfl

theorem emits_snapshot : Emits snapshot [] := by
  intro a
  unfold snapshot
  split
  · simp
  · simp [content, payload, IoSegment.bytes]

/-- A region comes behind what was written only since the writer is empty. -/
theorem emits_append (f : FileRegion) : Emits (fun a => a.snapshot.append f) f.bytes := by
  intro a
  have flushed := emits_snapshot a
  have empty := a.snapshot_w
  simp only [content, append, payload, empty, List.flatMap_append, List.append_nil] at flushed ⊢
  rw [flushed]
  simp [IoSegment.bytes]

theorem Emits.comp {f g : Assembly → Assembly} {bytes bytes' : Bytes} (first : Emits f bytes)
    (second : Emits g bytes') :
    Emits (fun a => g (f a)) (bytes ++ bytes') := by
  intro a
  rw [second, first, List.append_assoc]

theorem emits_foldl {α : Type} {step : Assembly → α → Assembly} {write : α → Bytes}
    (emits : ∀ x, Emits (fun a => step a x) (write x)) (xs : List α) :
    Emits (fun a => xs.foldl step a) (xs.flatMap write) := by
  induction xs with
  | nil => exact fun a => by simp
  | cons x xs ih =>
    rw [List.flatMap_cons]
    exact (emits x).comp ih

theorem emits_part (p : PartResult) : Emits (fun a => a.part p) p.response.encode := by
  obtain ⟨pr, region⟩ := p
  cases region with
  | none =>
    have emits := (emits_write (pr.encodePreRecords (-1))).comp (emits_write pr.encodePostRecords)
    exact emits
  | some f =>
    have emits := ((emits_write (pr.encodePreRecords f.region.size)).comp (emits_append f)).comp
      (emits_write pr.encodePostRecords)
    rwa [f.encode_between] at emits

theorem emits_topic (t : TopicResult) : Emits (fun a => a.topic t) t.response.encode := by
  have opened := (emits_write (writeUUID t.topicId)).comp (emits_write (writeCompactArrayLen t.parts.elems.length))
  have emits := (opened.comp (emits_foldl emits_part t.parts.elems)).comp (emits_write writeEmptyTaggedFields)
  have same : t.response.encode = writeUUID t.topicId ++ writeCompactArrayLen t.parts.elems.length ++
      t.parts.elems.flatMap (fun p => p.response.encode) ++ writeEmptyTaggedFields := by
    simp [TopicResult.response, FetchTopicResponse.encode, writeCompactArray, Slice.map, List.flatMap_map]
  rw [same]
  exact emits

end Assembly

theorem payload_fetchSegments (sessionId : Int32) (topics : Slice TopicResult) :
    payload (fetchSegments sessionId topics) = (plainResponse sessionId topics).encode := by
  let resp := fetchResponse sessionId
  have emits := (((Assembly.emits_write (resp.encodeHeader topics.elems.length)).comp
    (Assembly.emits_foldl Assembly.emits_topic topics.elems)).comp (Assembly.emits_write resp.encodeFooter)).comp
    Assembly.emits_snapshot
  have content : (assemble resp topics.elems ⟨[], []⟩).content = _ := emits ⟨[], []⟩
  have flushed : (assemble resp topics.elems ⟨[], []⟩).w = [] := Assembly.snapshot_w _
  have same : (plainResponse sessionId topics).encode = resp.encodeHeader topics.elems.length ++
      topics.elems.flatMap (fun t => t.response.encode) ++ resp.encodeFooter := by
    simp only [plainResponse, FetchResponse.encode, FetchResponse.encodeHeader, FetchResponse.encodeFooter,
      writeCompactArray, Slice.map, List.length_map, List.flatMap_map, List.append_assoc]
    rfl
  rw [Assembly.content, flushed, List.append_nil, List.append_nil] at content
  rw [same]
  exact content

theorem totalPayload_from {segs : List IoSegment} {n : Nat} (small : n + (payload segs).length < 2 ^ 63) :
    segs.foldl (fun total s => wrapSigned 64 (total + s.size)) (n : Int) = n + (payload segs).length := by
  induction segs generalizing n with
  | nil => simp [payload]
  | cons s segs ih =>
    have split : (payload (s :: segs)).length = s.bytes.length + (payload segs).length := by
      simp [payload]
    have sum : wrapSigned 64 (n + s.size) = (n + s.bytes.length : Nat) := by
      rw [s.size_eq]
      exact wrapSigned_natCast (by decide) (by omega)
    rw [List.foldl_cons, sum, ih (by omega), split]
    omega

theorem frameSize_eq {rhdr : Bytes} {segs : List IoSegment} (below : rhdr.length + (payload segs).length < 2 ^ 32) :
    frameSize rhdr segs = beBytes 4 (rhdr.length + (payload segs).length) := by
  have total : totalPayload segs = (payload segs).length := by
    have sum := totalPayload_from (n := 0) (show 0 + (payload segs).length < 2 ^ 63 by omega)
    rwa [Int.natCast_zero, Int.zero_add] at sum
  have sum : wrapSigned 64 (rhdr.length + totalPayload segs) = (rhdr.length + (payload segs).length : Nat) := by
    rw [total]
    exact wrapSigned_natCast (by decide) (by omega)
  unfold frameSize
  rw [sum, unsigned_natCast, Nat.mod_eq_of_lt below]

section Replies

variable (header : ResponseHeader) (sessionId : Int32) (topics : Slice TopicResult)

theorem fetch_reply (below : header.encode.length + (payload (fetchSegments sessionId topics)).length < 2 ^ 32) :
    payload (fetchSegments sessionId topics) = (plainResponse sessionId topics).encode ∧
      beNat (frameSize header.encode (fetchSegments sessionId topics)) =
        header.encode.length + (payload (fetchSegments sessionId topics)).length := by
  refine ⟨payload_fetchSegments sessionId topics, ?_⟩
  rw [frameSize_eq below, beNat_beBytes]
  exact Nat.mod_eq_of_lt below

def twoParts : Slice TopicResult :=
  let pr (index : Int32) : FetchPartitionResponse := ⟨index, 0, 4, 4, 0, .nil, -1, none, none, none, none⟩
  let region : FileRegion := ⟨⟨[1, 2, 3, 4, 5], 1, 3, 4, 0⟩, by decide, by decide, by decide, by decide⟩
  ⟨[⟨.copy [9], ⟨[⟨pr 0, some region⟩, ⟨pr 1, none⟩], by decide⟩⟩], by decide⟩

theorem fetch_reply_two : payload (fetchSegments 7 twoParts) = (plainResponse 7 twoParts).encode ∧
    beNat (frameSize (ResponseHeader.encode ⟨5, 13, 1⟩) (fetchSegments 7 twoParts)) =
      (ResponseHeader.encode ⟨5, 13, 1⟩).length + (payload (fetchSegments 7 twoParts)).length :=
  fetch_reply ⟨5, 13, 1⟩ 7 twoParts (by decide +kernel)

theorem reply_eq_writeFraming
    (below : header.encode.length + (payload (fetchSegments sessionId topics)).length < 2 ^ 32) :
    reply header (fetchSegments sessionId topics) = writeFraming header (plainResponse sessionId topics).encode := by
  have whole := payload_fetchSegments sessionId topics
  unfold reply writeFraming
  rw [frameSize_eq below, whole, unsigned_natCast, List.length_append, Nat.mod_eq_of_lt (by rwa [whole] at below),
    List.append_assoc]

end Replies

end KafGo.Wire
