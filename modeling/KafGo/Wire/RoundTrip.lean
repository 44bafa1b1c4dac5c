import KafGo.Wire.Admin
import KafGo.Wire.Fetch

/-!
# Messages that brokers send are read back

A decoder reads the encoding of a message, whatever stands behind it, as the message and consumes no more and no less.
-/

namespace KafGo.Wire
open Lib Scanner

theorem reads_fixed {α : Type} {n : Nat} {bytes : Bytes} (size : bytes.length = n) (small : n ≤ 2 ^ 48)
    (f : Bytes → α) : Reads (do return f (← readFixed n)) bytes (f bytes) := by
  subst size
  exact ((readFixed_parses small).reads (takeBytes_append bytes)).last

theorem beNat_bits {w : Nat} (x : BitVec (8 * w)) : BitVec.ofNat (8 * w) (beNat (beBytes w x.toNat)) = x := by
  have small : x.toNat < 256 ^ w := by
    have bound := x.isLt
    rwa [Nat.pow_mul] at bound
  rw [beNat_beBytes, Nat.mod_eq_of_lt small, BitVec.ofNat_toNat, BitVec.setWidth_eq]

theorem reads_bits {α : Type} {w : Nat} (small : w ≤ 2 ^ 48) {of : BitVec (8 * w) → α} {bits : α → BitVec (8 * w)}
    (inverse : ∀ v, of (bits v) = v) (v : α) :
    Reads (do return of (.ofNat (8 * w) (beNat (← readFixed w)))) (beBytes w (bits v).toNat) v := by
  have read := reads_fixed (length_beBytes w (bits v).toNat) small fun bs => of (.ofNat (8 * w) (beNat bs))
  rwa [beNat_bits, inverse] at read

theorem reads_int8 (v : Int8) : Reads readInt8 (writeInt8 v) v := reads_bits (w := 1) (by decide) (fun _ => rfl) v
theorem reads_int16 (v : Int16) : Reads readInt16 (writeInt16 v) v := reads_bits (w := 2) (by decide) (fun _ => rfl) v
theorem reads_int32 (v : Int32) : Reads readInt32 (writeInt32 v) v := reads_bits (w := 4) (by decide) (fun _ => rfl) v
theorem reads_int64 (v : Int64) : Reads readInt64 (writeInt64 v) v := reads_bits (w := 8) (by decide) (fun _ => rfl) v

theorem reads_bool (b : Bool) : Reads readBool (writeBool b) b := by
  cases b with
  | false => exact reads_fixed (show ([0] : Bytes).length = 1 from rfl) (by decide) fun bs => decide (bs ≠ [0])
  | true => exact reads_fixed (show ([1] : Bytes).length = 1 from rfl) (by decide) fun bs => decide (bs ≠ [0])

theorem reads_uuid (v : UUID) : Reads readUUID (writeUUID v) v := by
  have copied : UUID.copy v.bytes = v := by
    obtain ⟨bytes, length⟩ := v
    simp [UUID.copy, length]
  have read := reads_fixed v.length (by decide) UUID.copy
  rwa [copied] at read

theorem reads_uvarint (v : UInt64) : Reads readUVarInt (writeUVarInt v) v :=
  readUVarInt_parses.reads (takeUvarint_bytes v)

/-! ### Strings and arrays -/

section Lengths

variable {n : Nat}

theorem ofNat_toNat (small : n ≤ 2 ^ 48) : (UInt64.ofNat n).toNat = n := by
  rw [UInt64.toNat_ofNat']
  exact Nat.mod_eq_of_lt (by omega)

theorem ofNat_succ_ne (small : n ≤ 2 ^ 48) : UInt64.ofNat (n + 1) ≠ 0 := by
  intro zero
  have value := congrArg UInt64.toNat zero
  rw [UInt64.toNat_ofNat', Nat.mod_eq_of_lt (by omega)] at value
  cases value

theorem ofNat_succ_pred : UInt64.ofNat (n + 1) - 1 = UInt64.ofNat n := by
  rw [UInt64.ofNat_add]
  simp

theorem asInt_ofNat (small : n ≤ 2 ^ 48) : asInt (.ofNat n) = n := by
  rw [asInt_small (by rw [ofNat_toNat small]; omega), ofNat_toNat small]

end Lengths

theorem octets_nil {s : Octets} (empty : s.bytes.length = 0) : s = ⟨[], by decide⟩ := by
  obtain ⟨bytes, fits⟩ := s
  cases List.length_eq_zero_iff.mp empty
  rfl

theorem reads_compactString (s : CompactString) : Reads readCompactString (writeCompactString s) s := by
  refine (reads_uvarint _).bind ?_
  rw [ofNat_succ_pred]
  split
  · rename_i empty
    have length := congrArg UInt64.toNat empty
    rw [ofNat_toNat s.fits] at length
    rw [octets_nil length]
    exact reads_pure _
  · rw [asInt_ofNat s.fits]
    exact reads_take eof s

theorem reads_compactNullableString (s : CompactNullableString) :
    Reads readCompactNullableString (writeCompactNullableString s) s := by
  cases s with
  | none => exact (reads_uvarint 0).finish (reads_pure _)
  | some s =>
    refine (reads_uvarint _).bind ?_
    have present := ofNat_succ_ne s.fits
    rw [if_neg present, asInt_pred present, ofNat_succ_pred, asInt_ofNat s.fits]
    dsimp only
    split
    · rename_i empty
      have none : s.bytes.length = 0 := by omega
      rw [octets_nil none]
      exact reads_pure _
    · exact (reads_take eof s).last

theorem reads_compactRecords (records : CompactRecords) :
    Reads readCompactRecords (writeCompactRecords records) records := by
  cases records with
  | none => exact (reads_uvarint 0).finish (reads_pure _)
  | some records =>
    have fits : records.elems.length ≤ 2 ^ 48 := by
      have := records.fits
      rwa [show Sized.size UInt8 = 1 from rfl, Nat.mul_one] at this
    refine (reads_uvarint _).bind ?_
    have present := ofNat_succ_ne fits
    rw [if_neg present, asInt_pred present, ofNat_succ_pred, asInt_ofNat fits]
    dsimp only
    rw [if_neg (by omega)]
    exact (reads_take eof ⟨records.elems, fits⟩).last.last

section Arrays

variable {α : Type} [Sized α]

theorem Slice.map_id (xs : Slice α) : xs.map id (Nat.le_refl _) = xs := by
  obtain ⟨elems, fits⟩ := xs
  simp [Slice.map]

theorem Slice.length_le (xs : Slice α) : xs.elems.length ≤ 2 ^ 48 :=
  Nat.le_trans (Nat.le_mul_of_pos_right _ Sized.range.1) xs.fits

theorem reads_arrayLen {n : Nat} (small : n ≤ 2 ^ 48) :
    Reads readCompactArrayLen (writeCompactArrayLen n) (n : Int) := by
  have succ : UInt64.ofNat n + 1 = .ofNat (n + 1) := (UInt64.ofNat_add n 1).symm
  refine (reads_uvarint _).finish ?_
  rw [succ, if_neg (ofNat_succ_ne small), ofNat_succ_pred, asInt_ofNat small]
  exact reads_pure _

variable {write : α → Bytes} {g : α → α}

theorem reads_allocate {n : Nat} (fits : n ≤ maxAlloc) : Reads (allocate n) [] ⟨fits⟩ := by
  intro c rest forward remains
  exact ⟨c, dif_pos (allocates_ample.mpr fits), forward, rfl, remains⟩

theorem makeSlice_eq (xs : Slice α) (read : Nat → Decoder α) : makeSlice xs.elems.length read = (do
    let room ← allocate (xs.elems.length * Sized.size α)
    let elems ← each read xs.elems.length 0
    return ⟨elems.1, by rw [elems.2]; exact room.down⟩) := if_pos (Int.natCast_nonneg _)

theorem reads_makeSlice {read : Nat → Decoder α} (reads : ∀ i a, Reads (read i) (write a) (g a)) (xs : Slice α) :
    Reads (makeSlice xs.elems.length read) (xs.elems.flatMap write) (xs.map g (Nat.le_refl _)) := by
  rw [makeSlice_eq]
  exact (reads_allocate xs.fits).bind (reads_each reads (by simp) 0).last

theorem reads_readArray {read : Nat → Decoder α} (reads : ∀ i a, Reads (read i) (write a) (g a)) (xs : Slice α) :
    Reads (readArray read) (writeCompactArray xs write) (xs.map g (Nat.le_refl _)) :=
  (reads_arrayLen xs.length_le).bind (reads_makeSlice reads xs)

theorem Slice.reads_readArray {read : Nat → Decoder α} (reads : ∀ i a, Reads (read i) (write a) a) (xs : Slice α) :
    Reads (readArray read) (writeCompactArray xs write) xs := by
  have read := Wire.reads_readArray (g := id) reads xs
  rwa [xs.map_id] at read

theorem Slice.reads_appendArray {read : Decoder α} (reads : ∀ a, Reads read (write a) a) (xs : Slice α) :
    Reads (appendArray read) (writeCompactArray xs write) xs := by
  have elems : Reads (each (readAppend read) xs.elems.length 0) (xs.elems.flatMap write) ⟨xs.elems, rfl⟩ := by
    rw [← eachBytes_const write xs.elems 0]
    refine reads_each_at rfl 0 fun k a found => ?_
    obtain ⟨inside, _⟩ := List.getElem?_eq_some_iff.mp found
    have fits : (0 + k + 1) * Sized.size α ≤ maxAlloc :=
      Nat.le_trans (Nat.mul_le_mul_right _ (by omega)) xs.fits
    exact (reads a).finish (reads_allocate fits).last
  exact (reads_arrayLen xs.length_le).bind (elems.finish (reads_allocate xs.fits).last)

end Arrays

theorem reads_tag (tag size : UInt64) : Reads readTag (writeUVarInt tag ++ writeUVarInt size) (tag, size) :=
  (reads_uvarint tag).bind (reads_uvarint size).last

/-- The turns over tagged fields, with the bytes of each field and what it does to the state. -/
theorem reads_fields {σ : Type} (turn : σ → Decoder σ) (steps : List (Bytes × (σ → σ))) (few : steps.length ≤ 2 ^ 48)
    (reads : ∀ step ∈ steps, ∀ st, Reads (turn st) step.1 (step.2 st)) (st : σ) :
    Reads (do repeated turn (← readUVarInt).toNat st) (writeUVarInt (.ofNat steps.length) ++ steps.flatMap Prod.fst)
      (steps.foldl (fun st step => step.2 st) st) := by
  refine (reads_uvarint _).bind ?_
  rw [ofNat_toNat few]
  exact reads_repeated reads st

theorem reads_skipped (tag : UInt64) (payload : Bytes) :
    Reads (do let (_, size) ← readTag; skip eof (asInt size)) (writeTag tag payload) () := by
  refine reads_of_fits fun fits => ?_
  have small : payload.length ≤ 2 ^ 48 := by
    simp only [writeTag, List.length_append] at fits
    omega
  refine (reads_tag tag _).bind ?_
  dsimp only
  rw [asInt_ofNat small]
  exact reads_skip eof payload

theorem reads_taggedFields (fields : List (UInt64 × Bytes)) (few : fields.length ≤ 2 ^ 48) :
    Reads readTaggedFields (writeUVarInt (.ofNat fields.length) ++ fields.flatMap fun field => writeTag field.1 field.2)
      () := by
  have read := reads_fields (fun _ => do let (_, size) ← readTag; skip eof (asInt size))
    (fields.map fun field => (writeTag field.1 field.2, id)) (by rwa [List.length_map])
    (fun step member st => by
      obtain ⟨field, _, rfl⟩ := List.mem_map.mp member
      exact reads_skipped field.1 field.2) ()
  rwa [List.length_map, List.flatMap_map] at read

theorem reads_emptyTaggedFields : Reads readTaggedFields writeEmptyTaggedFields () :=
  reads_taggedFields [] (by decide)

theorem BrokerHeartbeatRequest.reads (b : BrokerHeartbeatRequest) : Reads decode b.encode b := by
  simp only [encode, List.append_assoc]
  exact (reads_int32 _).bind <| (reads_int64 _).bind <| (reads_int64 _).bind <| (reads_bool _).bind <|
    (reads_bool _).bind reads_emptyTaggedFields.last

theorem BrokerHeartbeatResponse.reads (b : BrokerHeartbeatResponse) : Reads decode b.encode b := by
  simp only [encode, List.append_assoc]
  exact (reads_int32 _).bind <| (reads_int16 _).bind <| (reads_bool _).bind <| (reads_bool _).bind <|
    (reads_bool _).bind reads_emptyTaggedFields.last

theorem BrokerListener.reads (l : BrokerListener) : Reads decode l.encode l := by
  simp only [encode, List.append_assoc]
  exact (reads_compactString _).bind <| (reads_compactString _).bind <| (reads_int32 _).bind <|
    (reads_int16 _).bind reads_emptyTaggedFields.last

theorem BrokerFeature.reads (f : BrokerFeature) : Reads decode f.encode f := by
  simp only [encode, List.append_assoc]
  exact (reads_compactString _).bind <| (reads_int16 _).bind <| (reads_int16 _).bind reads_emptyTaggedFields.last

theorem BrokerRegistrationRequest.reads (b : BrokerRegistrationRequest) : Reads decode b.encode b := by
  simp only [encode, List.append_assoc]
  exact (reads_int32 _).bind <| (reads_compactString _).bind <| (reads_uuid _).bind <|
    (b.listeners.reads_readArray fun _ => BrokerListener.reads).bind <|
    (b.features.reads_readArray fun _ => BrokerFeature.reads).bind <|
    (reads_compactNullableString _).bind reads_emptyTaggedFields.last

theorem BrokerRegistrationResponse.reads (b : BrokerRegistrationResponse) : Reads decode b.encode b := by
  simp only [encode, List.append_assoc]
  exact (reads_int32 _).bind <| (reads_int16 _).bind <| (reads_int64 _).bind reads_emptyTaggedFields.last

theorem CreateTopicAssignment.reads (c : CreateTopicAssignment) : Reads decode c.encode c := by
  simp only [encode, List.append_assoc]
  exact (reads_int32 _).bind <| (c.brokerIds.reads_appendArray reads_int32).bind reads_emptyTaggedFields.last

theorem CreateTopicConfig.reads (c : CreateTopicConfig) : Reads decode c.encode c := by
  simp only [encode, List.append_assoc]
  exact (reads_compactString _).bind <| (reads_compactNullableString _).bind reads_emptyTaggedFields.last

theorem CreateTopicData.reads (c : CreateTopicData) : Reads decode c.encode c := by
  simp only [encode, List.append_assoc]
  exact (reads_compactString _).bind <| (reads_int32 _).bind <| (reads_int16 _).bind <|
    (c.assignments.reads_appendArray CreateTopicAssignment.reads).bind <|
    (c.configs.reads_appendArray CreateTopicConfig.reads).bind reads_emptyTaggedFields.last

theorem CreateTopicsRequest.reads (c : CreateTopicsRequest) : Reads decode c.encode c := by
  simp only [encode, List.append_assoc]
  exact (c.topics.reads_appendArray CreateTopicData.reads).bind <| (reads_int32 _).bind <|
    (reads_bool _).bind reads_emptyTaggedFields.last

theorem CreateTopicConfigResponse.reads (c : CreateTopicConfigResponse) : Reads decode c.encode c := by
  simp only [encode, List.append_assoc]
  exact (reads_compactString _).bind <| (reads_compactNullableString _).bind <| (reads_bool _).bind <|
    (reads_int8 _).bind <| (reads_bool _).bind <| (reads_int16 _).bind reads_emptyTaggedFields.last

theorem CreateTopicResponseData.reads (c : CreateTopicResponseData) : Reads decode c.encode c := by
  simp only [encode, List.append_assoc]
  exact (reads_compactString _).bind <| (reads_uuid _).bind <| (reads_int16 _).bind <|
    (reads_compactNullableString _).bind <| (reads_int32 _).bind <| (reads_int16 _).bind <|
    (c.configs.reads_appendArray CreateTopicConfigResponse.reads).bind reads_emptyTaggedFields.last

theorem CreateTopicsResponse.reads (c : CreateTopicsResponse) : Reads decode c.encode c := by
  simp only [encode, List.append_assoc]
  exact (reads_int32 _).bind <|
    (c.topics.reads_appendArray CreateTopicResponseData.reads).bind reads_emptyTaggedFields.last

theorem reads_optional {α β : Type} {turn : Option α × Option β → Decoder (Option α × Option β)} {zero : α → Bytes}
    {one : β → Bytes} (readsZero : ∀ a st, Reads (turn st) (zero a) (some a, st.2))
    (readsOne : ∀ b st, Reads (turn st) (one b) (st.1, some b)) (a : Option α) (b : Option β) :
    Reads (do repeated turn (← readUVarInt).toNat (none, none))
      (writeUVarInt (setFields [a.isSome, b.isSome]) ++ optional a zero ++ optional b one) (a, b) := by
  have read := reads_fields turn
    ((a.map fun a => (zero a, fun st => (some a, st.2))).toList ++
      (b.map fun b => (one b, fun st => (st.1, some b))).toList)
    (by cases a <;> cases b <;> simp) (by
      intro step member st
      rcases List.mem_append.mp member with first | second
      · obtain ⟨x, _, rfl⟩ := by simpa using first
        exact readsZero x st
      · obtain ⟨x, _, rfl⟩ := by simpa using second
        exact readsOne x st) (none, none)
  cases a <;> cases b <;> simpa [optional, setFields] using read

theorem FetchPartition.reads_taggedFields (p : FetchPartition) :
    Reads decodeTaggedFields p.encodeTaggedFields (p.replicaDirectoryId, p.highWatermark) :=
  reads_optional (fun id _ => (reads_tag 0 16).bind ((reads_uuid id).mapError _).last)
    (fun hw _ => (reads_tag 1 8).bind ((reads_int64 hw).mapError _).last) _ _

theorem FetchPartition.reads (p : FetchPartition) : Reads decode p.encode p := by
  simp only [encode, List.append_assoc]
  exact (reads_int32 _).bind <| (reads_int32 _).bind <| (reads_int64 _).bind <| (reads_int32 _).bind <|
    (reads_int64 _).bind <| (reads_int32 _).bind p.reads_taggedFields.last

theorem FetchTopic.reads (t : FetchTopic) : Reads decode t.encode t := by
  simp only [encode, List.append_assoc]
  exact (reads_uuid _).bind <| (t.partitions.reads_readArray fun _ p => p.reads.mapError _).bind
    reads_emptyTaggedFields.last

theorem ForgottenTopic.reads (f : ForgottenTopic) : Reads decode f.encode f := by
  simp only [encode, List.append_assoc]
  exact (reads_uuid _).bind <| (f.partitions.reads_readArray fun _ id => (reads_int32 id).mapError _).bind
    reads_emptyTaggedFields.last

theorem AbortedTransaction.reads (a : AbortedTransaction) : Reads decode a.encode a := by
  simp only [encode, List.append_assoc]
  exact (reads_int64 _).bind <| (reads_int64 _).bind reads_emptyTaggedFields.last

theorem FetchRequest.reads_taggedFields (f : FetchRequest) :
    Reads decodeTaggedFields f.encodeTaggedFields (f.clusterId, f.replicaState) := by
  refine reads_optional (fun s _ => ?_) (fun state _ => ?_) _ _
  · exact (reads_tag 0 _).bind ((reads_compactNullableString (some s)).mapError _).last
  · rw [List.append_assoc]
    exact (reads_tag 1 12).bind <| ((reads_int32 _).mapError _).bind ((reads_int64 _).mapError _).last

theorem FetchRequest.reads (f : FetchRequest) : Reads decode f.encode f := by
  simp only [encode, List.append_assoc]
  exact (reads_int32 _).bind <| (reads_int32 _).bind <| (reads_int32 _).bind <| (reads_int8 _).bind <|
    (reads_int32 _).bind <| (reads_int32 _).bind <|
    (f.topics.reads_readArray fun _ t => t.reads.mapError _).bind <|
    (f.forgottenTopics.reads_readArray fun _ t => t.reads.mapError _).bind <|
    (reads_compactString _).bind f.reads_taggedFields.last

def FetchPartitionResponse.untagged (p : FetchPartitionResponse) : FetchPartitionResponse :=
  { p with divergingEpoch := none, currentLeader := none, snapshotId := none }

def FetchTopicResponse.untagged (t : FetchTopicResponse) : FetchTopicResponse :=
  { t with partitions := t.partitions.map FetchPartitionResponse.untagged (Nat.le_refl _) }

def FetchResponse.untagged (f : FetchResponse) : FetchResponse :=
  { f with responses := f.responses.map FetchTopicResponse.untagged (Nat.le_refl _), nodeEndpoints := .nil }

theorem FetchPartitionResponse.reads_taggedFields (p : FetchPartitionResponse) :
    Reads readTaggedFields p.encodeTaggedFields () := by
  have read := Wire.reads_taggedFields
    ((p.divergingEpoch.map fun d => (0, writeInt32 d.epoch ++ writeInt64 d.endOffset)).toList ++
      (p.currentLeader.map fun l => (1, writeInt32 l.leaderId ++ writeInt32 l.leaderEpoch)).toList ++
      (p.snapshotId.map fun s => (2, writeInt64 s.endOffset ++ writeInt32 s.epoch)).toList)
    (by cases p.divergingEpoch <;> cases p.currentLeader <;> cases p.snapshotId <;> simp)
  unfold encodeTaggedFields
  revert read
  cases p.divergingEpoch <;> cases p.currentLeader <;> cases p.snapshotId <;>
    exact fun read => by simpa [optional, setFields] using read

theorem FetchPartitionResponse.reads (p : FetchPartitionResponse) : Reads decode p.encode p.untagged := by
  simp only [encode, List.append_assoc]
  exact (reads_int32 _).bind <| (reads_int16 _).bind <| (reads_int64 _).bind <| (reads_int64 _).bind <|
    (reads_int64 _).bind <| (p.abortedTransactions.reads_appendArray AbortedTransaction.reads).bind <|
    (reads_int32 _).bind <| (reads_compactRecords _).bind p.reads_taggedFields.last

theorem FetchTopicResponse.reads (t : FetchTopicResponse) : Reads decode t.encode t.untagged := by
  simp only [encode, List.append_assoc]
  exact (reads_uuid _).bind <| (reads_readArray (fun _ => FetchPartitionResponse.reads) _).bind
    reads_emptyTaggedFields.last

theorem FetchResponse.reads_taggedFields (f : FetchResponse) : Reads readTaggedFields f.encodeTaggedFields () := by
  unfold encodeTaggedFields
  split
  · exact reads_emptyTaggedFields
  · have read := Wire.reads_taggedFields [(0, writeCompactArray f.nodeEndpoints NodeEndpoint.encode)] (by simp)
    simpa using read

theorem FetchResponse.reads (f : FetchResponse) : Reads decode f.encode f.untagged := by
  simp only [encode, List.append_assoc]
  exact (reads_int32 _).bind <| (reads_int16 _).bind <| (reads_int32 _).bind <|
    (reads_readArray (fun _ => FetchTopicResponse.reads) _).bind f.reads_taggedFields.last

/-- From every position at which the bytes stand, whatever is behind them, the decoder returns the value and moves the
position by the number of the bytes. -/
def DecodesTo {α : Type} (d : Decoder α) (bytes : Bytes) (a : α) : Prop :=
  ∀ (c : Cursor) (rest : Bytes), c.Forward → c.remaining = bytes ++ rest →
    ∃ c', d c = (.ok a, c') ∧ c'.buff = c.buff ∧ c'.pos = c.pos + bytes.length

theorem decodesTo_of_reads {α : Type} {d : Decoder α} {bytes : Bytes} {a : α} (reads : Reads d bytes a) :
    DecodesTo d bytes a := by
  intro c rest forward remains
  obtain ⟨c', ran, onward⟩ := reads c rest forward remains
  exact ⟨c', ran, onward.buff, onward.pos forward remains⟩

theorem messages_round_trip :
    (∀ m : FetchRequest, DecodesTo FetchRequest.decode m.encode m) ∧
    (∀ m : FetchResponse, DecodesTo FetchResponse.decode m.encode m.untagged) ∧
    (∀ m : CreateTopicsRequest, DecodesTo CreateTopicsRequest.decode m.encode m) ∧
    (∀ m : CreateTopicsResponse, DecodesTo CreateTopicsResponse.decode m.encode m) ∧
    (∀ m : BrokerRegistrationRequest, DecodesTo BrokerRegistrationRequest.decode m.encode m) ∧
    (∀ m : BrokerRegistrationResponse, DecodesTo BrokerRegistrationResponse.decode m.encode m) ∧
    (∀ m : BrokerHeartbeatRequest, DecodesTo BrokerHeartbeatRequest.decode m.encode m) ∧
    (∀ m : BrokerHeartbeatResponse, DecodesTo BrokerHeartbeatResponse.decode m.encode m) :=
  ⟨fun m => decodesTo_of_reads m.reads, fun m => decodesTo_of_reads m.reads, fun m => decodesTo_of_reads m.reads,
    fun m => decodesTo_of_reads m.reads, fun m => decodesTo_of_reads m.reads, fun m => decodesTo_of_reads m.reads,
    fun m => decodesTo_of_reads m.reads, fun m => decodesTo_of_reads m.reads⟩

def ledResponse : FetchResponse :=
  let part : FetchPartitionResponse :=
    ⟨0, 0, 4, 4, 0, ⟨[⟨1, 2⟩], by decide⟩, -1, some ⟨[1, 2, 3], by decide⟩, none, some ⟨2, 7⟩, none⟩
  ⟨0, 0, 7, ⟨[⟨.copy [9], ⟨[part], by decide⟩⟩], by decide⟩, .nil⟩

theorem messages_round_trip_led : ∃ c', FetchResponse.decode (.start ⟨ledResponse.encode ++ [8], by decide +kernel⟩) =
    (.ok ledResponse.untagged, c') ∧ c'.pos = ledResponse.encode.length := by
  obtain ⟨c', ran, _, pos⟩ := messages_round_trip.2.1 ledResponse
    (.start ⟨ledResponse.encode ++ [8], by decide +kernel⟩)
    [8] (Cursor.start_forward _) rfl
  exact ⟨c', ran, pos.trans (Int.zero_add _)⟩

end KafGo.Wire
