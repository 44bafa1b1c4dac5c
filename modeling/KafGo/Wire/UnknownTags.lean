import KafGo.Lib.Walk
import KafGo.Wire.RoundTrip

/-!
# Unknown tagged fields of a fetch request

`ReadRawBytes` copies the bytes of an unknown field and stays where it is, so the loop goes on with the first byte of
the field. At the end of the buffer it fails, also for no bytes at all.
-/

namespace KafGo.Wire
open Lib Scanner

structure UnknownField where
  tag : UInt64
  payload : Bytes
  unknown : tag ≠ 0 ∧ tag ≠ 1

namespace UnknownField

def size (u : UnknownField) : UInt64 := .ofNat u.payload.length

def header (u : UnknownField) : Bytes := writeUVarInt u.tag ++ writeUVarInt u.size

def write (u : UnknownField) : Bytes := u.header ++ u.payload

end UnknownField

/-- Unknown fields in a section that knows two tags: before the first known field, between the two and behind them. -/
structure Unknowns where
  before : List UnknownField
  between : List UnknownField
  after : List UnknownField

inductive Field (α β : Type) where
  | zero (a : α)
  | one (b : β)
  | unknown (u : UnknownField)

section Sections

variable {α β : Type}

def Unknowns.fields (u : Unknowns) (a : Option α) (b : Option β) : List (Field α β) :=
  u.before.map .unknown ++ a.toList.map .zero ++ u.between.map .unknown ++ b.toList.map .one ++ u.after.map .unknown

def Field.write (zero : α → Bytes) (one : β → Bytes) : Field α β → Bytes
  | .zero a => zero a
  | .one b => one b
  | .unknown u => u.write

def writeSection (zero : α → Bytes) (one : β → Bytes) (fields : List (Field α β)) : Bytes :=
  writeUVarInt (.ofNat fields.length) ++ fields.flatMap (Field.write zero one)

def Field.set (st : Option α × Option β) : Field α β → Option α × Option β
  | .zero a => (some a, st.2)
  | .one b => (st.1, some b)
  | .unknown _ => st

end Sections

def FetchPartition.fields (p : FetchPartition) (u : Unknowns) : List (Field UUID Int64) :=
  u.fields p.replicaDirectoryId p.highWatermark

def writeDirectoryId (id : UUID) : Bytes := writeUVarInt 0 ++ writeUVarInt 16 ++ writeUUID id

def writeHighWatermark (hw : Int64) : Bytes := writeUVarInt 1 ++ writeUVarInt 8 ++ writeInt64 hw

def FetchPartition.encodeWith (p : FetchPartition) (u : Unknowns) : Bytes :=
  writeInt32 p.partition ++ writeInt32 p.currentLeaderEpoch ++ writeInt64 p.fetchOffset ++
    writeInt32 p.lastFetchedEpoch ++ writeInt64 p.logStartOffset ++ writeInt32 p.partitionMaxBytes ++
    writeSection writeDirectoryId writeHighWatermark (p.fields u)

def FetchTopic.encodeWith (t : FetchTopic) (u : Nat → Unknowns) : Bytes :=
  writeUUID t.topicId ++
    (writeCompactArrayLen t.partitions.elems.length ++ eachBytes
      (fun i p => p.encodeWith (u i)) 0 t.partitions.elems) ++
    writeEmptyTaggedFields

/-- Unknown fields of a request and of the partitions of its topics, by their numbers. -/
structure Insertion where
  request : Unknowns
  partition : Nat → Nat → Unknowns

def writeClusterId (s : Octets) : Bytes :=
  writeUVarInt 0 ++ writeUVarInt (.ofNat (uvarIntSize (.ofNat (s.bytes.length + 1)) + s.bytes.length)) ++
    writeCompactNullableString (some s)

def writeReplicaState (state : ReplicaState) : Bytes :=
  writeUVarInt 1 ++ writeUVarInt 12 ++ writeInt32 state.replicaId ++ writeInt64 state.replicaEpoch

def FetchRequest.fields (f : FetchRequest) (ins : Insertion) : List (Field Octets ReplicaState) :=
  ins.request.fields f.clusterId f.replicaState

def FetchRequest.encodeWith (f : FetchRequest) (ins : Insertion) : Bytes :=
  writeInt32 f.maxWaitMs ++ writeInt32 f.minBytes ++ writeInt32 f.maxBytes ++ writeInt8 f.isolationLevel ++
    writeInt32 f.sessionId ++ writeInt32 f.sessionEpoch ++
    (writeCompactArrayLen f.topics.elems.length ++
      eachBytes (fun i t => t.encodeWith (ins.partition i)) 0 f.topics.elems) ++
    writeCompactArray f.forgottenTopics ForgottenTopic.encode ++ writeCompactString f.rackId ++
    writeSection writeClusterId writeReplicaState (f.fields ins)

def Unknowns.none : Unknowns := ⟨[], [], []⟩

def Insertion.none : Insertion := ⟨.none, fun _ _ => .none⟩

theorem writeSection_none {α β : Type} (zero : α → Bytes) (one : β → Bytes) (a : Option α) (b : Option β) :
    writeSection zero one (Unknowns.none.fields a b) =
      writeUVarInt (setFields [a.isSome, b.isSome]) ++ optional a zero ++ optional b one := by
  cases a <;> cases b <;>
    simp [writeSection, Unknowns.none, Unknowns.fields, setFields, optional, Field.write]

theorem FetchRequest.encodeWith_none (f : FetchRequest) : f.encodeWith .none = f.encode := by
  have partition : ∀ p : FetchPartition, p.encodeWith .none = p.encode := by
    intro p
    unfold FetchPartition.encodeWith FetchPartition.encode FetchPartition.fields
    rw [writeSection_none]
    rfl
  have topic : ∀ t : FetchTopic, t.encodeWith (fun _ => .none) = t.encode := by
    intro t
    unfold FetchTopic.encodeWith FetchTopic.encode writeCompactArray
    rw [eachBytes_const, funext partition]
  unfold FetchRequest.encodeWith FetchRequest.encode FetchRequest.fields
  show _ ++ (_ ++ eachBytes (fun _ t => FetchTopic.encodeWith t fun _ => .none) 0 f.topics.elems) ++ _ ++ _ ++
    writeSection _ _ (Unknowns.none.fields _ _) = _
  rw [writeSection_none, eachBytes_const, funext topic]
  rfl

/-! ### One section -/

theorem readRawBytes_end {c : Cursor} (forward : c.Forward) (empty : c.remaining = []) (n : Int) :
    readRawBytes n c = (.error (.error eof), c) := by
  have left := forward.left
  rw [empty] at left
  have ended : done c = ((.ok true, c) : Except (Stop String) Bool × Cursor) := by
    unfold done
    rw [decide_eq_true (by simp only [List.length_nil] at left; omega)]
  unfold readRawBytes
  rw [bind_ok ended]
  rfl

theorem readRawBytes_stays {c : Cursor} (forward : c.Forward) (more : c.remaining ≠ []) {n : Nat}
    (room : n ≤ c.remaining.length) : readRawBytes n c = (.ok (), c) := by
  have left := forward.left
  have bounds := forward.bounds
  have fits := c.buff.fits
  have positive := List.length_pos_iff.mpr more
  unfold Cursor.size at left bounds
  have going : done c = ((.ok false, c) : Except (Stop String) Bool × Cursor) := by
    unfold done
    rw [decide_eq_false (by unfold Cursor.size; omega)]
  obtain ⟨v, _, peeked⟩ := peek_apply forward eof (n := (n : Int)) (by omega) (by omega)
  rw [if_pos (by omega), if_pos (by omega)] at peeked
  unfold readRawBytes
  rw [bind_ok going]
  exact bind_ok peeked

/-- A loop over tagged fields that knows the tags 0 and 1. -/
structure Knows {α β : Type} (turn : Option α × Option β → Decoder (Option α × Option β)) (zero : α → Bytes)
    (one : β → Bytes) : Prop where
  readsZero : ∀ a st, Reads (turn st) (zero a) (some a, st.2)
  readsOne : ∀ b st, Reads (turn st) (one b) (st.1, some b)
  skips : ∀ (u : UnknownField) st c rest, c.Forward → c.remaining = u.header ++ rest →
    ∃ path c', Onward c c' rest ∧ turn st c = (do within path (readRawBytes (asInt u.size)); return st : Decoder _) c'
  zero_ne : ∀ a, zero a ≠ []
  one_ne : ∀ b, one b ≠ []

theorem writeUVarInt_ne (v : UInt64) : writeUVarInt v ≠ [] := by
  intro empty
  have taken := takeUvarint_bytes v []
  rw [show uvarintBytes v = [] from empty] at taken
  cases taken

section Loop

variable {α β : Type} {turn : Option α × Option β → Decoder (Option α × Option β)} {zero : α → Bytes} {one : β → Bytes}
  {fields : List (Field α β)}

theorem Knows.ahead_unknown (knows : Knows turn zero one) {u : UnknownField} (empty : u.payload = [])
    (st : Option α × Option β) : ReadsAhead (turn st) u.write st := by
  intro c rest more forward remains
  rw [UnknownField.write, empty, List.append_nil] at remains
  obtain ⟨path, c', onward, ran⟩ := knows.skips u st c rest forward remains
  have none : asInt u.size = ((0 : Nat) : Int) := by
    rw [UnknownField.size, empty]
    decide
  have stays := readRawBytes_stays onward.forward (by rw [onward.remaining]; exact more) (Nat.zero_le _)
  refine ⟨c', ?_, onward⟩
  rw [ran, none]
  refine bind_ok (a := ()) ?_
  simp only [within, Scanner.mapError, stays]

/-- At the end of the buffer an unknown field fails if it is empty, and is left there if it is not. -/
theorem Knows.unknown_fallsShort (knows : Knows turn zero one) (u : UnknownField) (st : Option α × Option β) :
    FallsShort (turn st) u.write := by
  intro c forward remains a c' ran
  obtain ⟨path, c₁, onward, moved⟩ := knows.skips u st c u.payload forward remains
  rw [moved] at ran
  have room := forward.left
  have bounds := forward.bounds
  have fits := c.buff.fits
  rw [remains, UnknownField.write, List.length_append] at room
  unfold Cursor.size at room bounds
  by_cases empty : u.payload = []
  · have fails := readRawBytes_end onward.forward (onward.remaining.trans empty) (asInt u.size)
    have failed : within path (readRawBytes (asInt u.size)) c₁ = (.error (.error (path ++ ": " ++ eof)), c₁) := by
      simp only [within, Scanner.mapError, fails]
    rw [bind_error failed] at ran
    cases ran
  · have size : asInt u.size = (u.payload.length : Int) := asInt_ofNat (by omega)
    have stays := readRawBytes_stays onward.forward (by rw [onward.remaining]; exact empty)
      (by rw [onward.remaining] : u.payload.length ≤ c₁.remaining.length)
    have left : within path (readRawBytes (asInt u.size)) c₁ = (.ok (), c₁) := by
      simp only [within, Scanner.mapError, size, stays]
    rw [bind_ok left] at ran
    obtain ⟨_, rfl⟩ := Prod.mk.inj ran
    refine ⟨onward.buff, ?_⟩
    rw [onward.remaining]
    exact empty

/-- All unknown fields are empty. -/
def Bare (fields : List (Field α β)) : Prop := ∀ u, Field.unknown u ∈ fields → u.payload = []

theorem Knows.ahead_field (knows : Knows turn zero one) {field : Field α β}
    (empty : ∀ u, field = .unknown u → u.payload = []) (st : Option α × Option β) :
    ReadsAhead (turn st) (field.write zero one) (field.set st) := by
  cases field with
  | zero a => exact (knows.readsZero a st).ahead
  | one b => exact (knows.readsOne b st).ahead
  | unknown u => exact knows.ahead_unknown (empty u rfl) st

theorem Knows.ahead_fields (knows : Knows turn zero one) (bare : Bare fields) (st : Option α × Option β) :
    ReadsAhead (repeated turn fields.length st) (fields.flatMap (Field.write zero one))
      (fields.foldl Field.set st) := by
  let steps := fields.map fun field => (field.write zero one, fun st => field.set st)
  have each : ∀ step ∈ steps, ∀ st, ReadsAhead (turn st) step.1 (step.2 st) := by
    intro step member st
    obtain ⟨field, inside, rfl⟩ := List.mem_map.mp member
    exact knows.ahead_field (fun u same => bare u (same ▸ inside)) st
  have ahead := ahead_repeated each st
  rwa [List.length_map, List.flatMap_map, List.foldl_map] at ahead

theorem Knows.write_ne (knows : Knows turn zero one) (field : Field α β) : field.write zero one ≠ [] := by
  cases field with
  | zero a => exact knows.zero_ne a
  | one b => exact knows.one_ne b
  | unknown u =>
    exact List.append_ne_nil_of_left_ne_nil (List.append_ne_nil_of_left_ne_nil (writeUVarInt_ne u.tag) _) _

theorem Knows.few (knows : Knows turn zero one) {c : Cursor} {rest : Bytes} (forward : c.Forward)
    (remains : c.remaining = writeSection zero one fields ++ rest) : fields.length ≤ 2 ^ 48 := by
  have each : fields.length ≤ (fields.flatMap (Field.write zero one)).length :=
    length_le_flatMap fun field _ => knows.write_ne field
  have left := forward.left
  have bounds := forward.bounds
  have fits : c.size ≤ 2 ^ 48 := c.buff.fits
  rw [remains, writeSection, List.length_append, List.length_append] at left
  omega

theorem Knows.ahead_section (knows : Knows turn zero one) (bare : Bare fields) :
    ReadsAhead (do repeated turn (← readUVarInt).toNat (none, none)) (writeSection zero one fields)
      (fields.foldl Field.set (none, none)) := by
  intro c rest more forward remains
  have few := knows.few forward remains
  refine (reads_uvarint _).ahead.bind ?_ c rest more forward remains
  rw [ofNat_toNat few]
  exact knows.ahead_fields bare _

theorem Knows.reads_section (knows : Knows turn zero one) (bare : Bare fields)
    (known : ∀ u, fields.getLast? ≠ some (.unknown u)) :
    Reads (do repeated turn (← readUVarInt).toNat (none, none)) (writeSection zero one fields)
      (fields.foldl Field.set (none, none)) := by
  intro c rest forward remains
  have few := knows.few forward remains
  refine (reads_uvarint _).bind ?_ c rest forward remains
  rw [ofNat_toNat few]
  rcases List.eq_nil_or_concat fields with rfl | ⟨front, field, rfl⟩
  · exact reads_pure _
  · rw [List.concat_eq_append] at known bare ⊢
    have ahead := knows.ahead_fields (fun u member => bare u (List.mem_append_left _ member)) (none, none)
    have last : Reads (turn (front.foldl Field.set (none, none))) (field.write zero one)
        (field.set (front.foldl Field.set (none, none))) := by
      cases field with
      | zero a => exact knows.readsZero a _
      | one b => exact knows.readsOne b _
      | unknown u => exact absurd (List.getLast?_concat ..) (known u)
    rw [List.length_append, List.length_singleton, repeated_concat, List.flatMap_append, List.flatMap_singleton,
      List.foldl_append]
    exact ahead.before (knows.write_ne field) last

theorem Knows.section_fallsShort (knows : Knows turn zero one) {front : List (Field α β)} (bare : Bare front)
    (u : UnknownField) :
    FallsShort (do repeated turn (← readUVarInt).toNat (none, none))
      (writeSection zero one (front ++ [.unknown u])) := by
  intro c forward remains
  have few := knows.few forward (remains.trans (List.append_nil _).symm)
  have short : FallsShort (repeated turn (front ++ [Field.unknown u]).length (none, none))
      ((front ++ [Field.unknown u]).flatMap (Field.write zero one)) := by
    rw [List.length_append, List.length_singleton, repeated_concat, List.flatMap_append, List.flatMap_singleton]
    exact (knows.ahead_fields bare _).fallsShort (knows.write_ne (.unknown u)) (knows.unknown_fallsShort u _)
  refine (reads_uvarint _).fallsShort ?_ c forward remains
  rw [ofNat_toNat few]
  exact short

theorem foldl_set (u : Unknowns) (a : Option α) (b : Option β) :
    (u.fields a b).foldl Field.set (none, none) = (a, b) := by
  have skipped : ∀ (us : List UnknownField) (st : Option α × Option β),
      (us.map (Field.unknown (α := α) (β := β))).foldl Field.set st = st := by
    intro us st
    induction us with
    | nil => rfl
    | cons v us ih => exact ih
  unfold Unknowns.fields
  simp only [List.foldl_append, skipped]
  cases a <;> cases b <;> rfl

end Loop

/-! ### Whole requests -/

/-- A turn that skips the fields it does not know moves behind the header of such a field first. -/
theorem skips_unknown {σ : Type} {k : UInt64 × UInt64 → Decoder σ} {st : σ}
    (other : ∀ tag size, tag ≠ 0 → tag ≠ 1 → k (tag, size) =
      do within ("skip unknown tag " ++ toString tag) (readRawBytes (asInt size)); return st)
    (u : UnknownField) (c : Cursor) (rest : Bytes) (forward : c.Forward) (remains : c.remaining = u.header ++ rest) :
    ∃ path c', Onward c c' rest ∧
      (readTag >>= k) c = (do within path (readRawBytes (asInt u.size)); return st : Decoder σ) c' := by
  obtain ⟨c', ran, onward⟩ := reads_tag u.tag u.size c rest forward remains
  refine ⟨"skip unknown tag " ++ toString u.tag, c', onward, ?_⟩
  rw [bind_ok ran, other u.tag u.size u.unknown.1 u.unknown.2]

theorem FetchPartition.knows : Knows decodeTaggedField writeDirectoryId writeHighWatermark where
  readsZero id _ := (reads_tag 0 16).bind ((reads_uuid id).mapError _).last
  readsOne hw _ := (reads_tag 1 8).bind ((reads_int64 hw).mapError _).last
  skips u st c rest := by
    refine skips_unknown (fun tag size notZero notOne => ?_) u c rest
    dsimp only
    rw [if_neg notZero, if_neg notOne]
  zero_ne id := List.append_ne_nil_of_left_ne_nil (List.append_ne_nil_of_left_ne_nil (writeUVarInt_ne 0) _) _
  one_ne hw := List.append_ne_nil_of_left_ne_nil (List.append_ne_nil_of_left_ne_nil (writeUVarInt_ne 1) _) _

theorem FetchRequest.knows : Knows decodeTaggedField writeClusterId writeReplicaState where
  readsZero s _ := (reads_tag 0 _).bind ((reads_compactNullableString (some s)).mapError _).last
  readsOne state _ := by
    rw [writeReplicaState, List.append_assoc]
    exact (reads_tag 1 12).bind <| ((reads_int32 _).mapError _).bind ((reads_int64 _).mapError _).last
  skips u st c rest := by
    refine skips_unknown (fun tag size notZero notOne => ?_) u c rest
    dsimp only
    rw [if_neg notZero, if_neg notOne]
  zero_ne s := List.append_ne_nil_of_left_ne_nil (List.append_ne_nil_of_left_ne_nil (writeUVarInt_ne 0) _) _
  one_ne state := List.append_ne_nil_of_left_ne_nil (List.append_ne_nil_of_left_ne_nil
    (List.append_ne_nil_of_left_ne_nil (writeUVarInt_ne 1) _) _) _

theorem FetchPartition.ahead (p : FetchPartition) {u : Unknowns} (bare : Bare (p.fields u)) :
    ReadsAhead decode (p.encodeWith u) p := by
  have fields := FetchPartition.knows.ahead_section bare
  rw [FetchPartition.fields, foldl_set] at fields
  simp only [encodeWith, List.append_assoc]
  exact (reads_int32 _).ahead.bind <| (reads_int32 _).ahead.bind <| (reads_int64 _).ahead.bind <|
    (reads_int32 _).ahead.bind <| (reads_int64 _).ahead.bind <| (reads_int32 _).ahead.bind fields.last

section Arrays

variable {α : Type} [Sized α] {read : Nat → Decoder α} {write : Nat → α → Bytes}

theorem Slice.ahead_readArray (xs : Slice α)
    (reads : ∀ i a, xs.elems[i]? = some a → ReadsAhead (read i) (write i a) a) :
    ReadsAhead (readArray read) (writeCompactArrayLen xs.elems.length ++ eachBytes write 0 xs.elems) xs := by
  refine (reads_arrayLen xs.length_le).ahead.bind ?_
  rw [makeSlice_eq]
  refine (reads_allocate xs.fits).ahead.bind (ahead_each rfl 0 ?_).last
  intro k a found
  rw [Nat.zero_add]
  exact reads k a found

end Arrays

theorem FetchTopic.reads_with (t : FetchTopic) {u : Nat → Unknowns}
    (bare : ∀ (j : Nat) (p : FetchPartition), t.partitions.elems[j]? = some p → Bare (p.fields (u j))) :
    Reads decode (t.encodeWith u) t := by
  have partitions : ReadsAhead (readArray fun i => within (indexed "partition" i) FetchPartition.decode)
      (writeCompactArrayLen t.partitions.elems.length ++
        eachBytes (fun i (p : FetchPartition) => p.encodeWith (u i)) 0 t.partitions.elems) t.partitions :=
    t.partitions.ahead_readArray fun j p found => (p.ahead (bare j p found)).mapError _
  rw [encodeWith, List.append_assoc]
  exact (reads_uuid _).bind (partitions.before (writeUVarInt_ne 0) reads_emptyTaggedFields.last)

/-- Unknown fields without a payload, but for the last one of the request. -/
structure FetchRequest.Spare (f : FetchRequest) (ins : Insertion) : Prop where
  partitions : ∀ (i : Nat) (t : FetchTopic), f.topics.elems[i]? = some t →
    ∀ (j : Nat) (p : FetchPartition), t.partitions.elems[j]? = some p → Bare (p.fields (ins.partition i j))
  request : Bare (f.fields ins).dropLast

/-- Unknown fields without a payload, and a known field behind them in the request. -/
structure FetchRequest.Skippable (f : FetchRequest) (ins : Insertion) : Prop where
  partitions : ∀ (i : Nat) (t : FetchTopic), f.topics.elems[i]? = some t →
    ∀ (j : Nat) (p : FetchPartition), t.partitions.elems[j]? = some p → Bare (p.fields (ins.partition i j))
  request : Bare (f.fields ins)
  known : ∀ u, (f.fields ins).getLast? ≠ some (.unknown u)

namespace FetchRequest

variable {f : FetchRequest} {ins : Insertion}

theorem Skippable.spare (skippable : f.Skippable ins) : f.Spare ins :=
  ⟨skippable.partitions, fun u member => skippable.request u ((List.dropLast_sublist _).subset member)⟩

theorem reads_topics (spare : f.Spare ins) : Reads (readArray fun i => within (indexed "topic" i) FetchTopic.decode)
    (writeCompactArrayLen f.topics.elems.length ++
      eachBytes (fun i (t : FetchTopic) => t.encodeWith (ins.partition i)) 0 f.topics.elems) f.topics := by
  refine (reads_arrayLen f.topics.length_le).bind ?_
  rw [makeSlice_eq]
  refine (reads_allocate f.topics.fits).bind (reads_each_at rfl 0 ?_).last
  intro i t found
  rw [Nat.zero_add]
  exact (t.reads_with (spare.partitions i t found)).mapError _

theorem reads_with (spare : f.Spare ins) (known : ∀ u, (f.fields ins).getLast? ≠ some (.unknown u)) :
    Reads decode (f.encodeWith ins) f := by
  have bare : Bare (f.fields ins) := by
    intro u member
    rcases List.eq_nil_or_concat (f.fields ins) with empty | ⟨front, field, split⟩
    · rw [empty] at member
      cases member
    · rw [List.concat_eq_append] at split
      have request := spare.request
      rw [split, List.dropLast_concat] at request
      rw [split] at member known
      rcases List.mem_append.mp member with inside | last
      · exact request u inside
      · exact absurd (List.getLast?_concat ..) (List.mem_singleton.mp last ▸ known u)
  have fields := FetchRequest.knows.reads_section bare known
  rw [FetchRequest.fields, foldl_set] at fields
  simp only [encodeWith, List.append_assoc]
  rw [← List.append_assoc (writeCompactArrayLen _)]
  exact (reads_int32 _).bind <| (reads_int32 _).bind <| (reads_int32 _).bind <| (reads_int8 _).bind <|
    (reads_int32 _).bind <| (reads_int32 _).bind <| (reads_topics spare).bind <|
    (f.forgottenTopics.reads_readArray fun _ t => t.reads.mapError _).bind <| (reads_compactString _).bind fields.last

theorem fallsShort_with (spare : f.Spare ins) {u : UnknownField} (last : (f.fields ins).getLast? = some (.unknown u)) :
    FallsShort decode (f.encodeWith ins) := by
  obtain ⟨front, split⟩ := List.getLast?_eq_some_iff.mp last
  have request := spare.request
  rw [split, List.dropLast_concat] at request
  have fields := FetchRequest.knows.section_fallsShort request u
  rw [← split] at fields
  simp only [encodeWith, List.append_assoc]
  rw [← List.append_assoc (writeCompactArrayLen _)]
  exact (reads_int32 _).fallsShort <| (reads_int32 _).fallsShort <| (reads_int32 _).fallsShort <|
    (reads_int8 _).fallsShort <| (reads_int32 _).fallsShort <| (reads_int32 _).fallsShort <|
    (reads_topics spare).fallsShort <| (f.forgottenTopics.reads_readArray fun _ t => t.reads.mapError _).fallsShort <|
    (reads_compactString _).fallsShort fields.last

/-- The request is decoded from the encoding with the unknown fields, and nothing is left of that. -/
def ReadBack (f : FetchRequest) (ins : Insertion) (buff : Octets) : Prop :=
  ∃ c', FetchRequest.decode (.start buff) = (.ok f, c') ∧ c'.pos = (f.encodeWith ins).length

section ReadBack

variable {buff : Octets} (encoded : buff.bytes = f.encodeWith ins) (spare : f.Spare ins)

include encoded spare

theorem readBack_known (known : ∀ u, (f.fields ins).getLast? ≠ some (.unknown u)) : f.ReadBack ins buff := by
  have forward := Cursor.start_forward buff
  have whole : (Cursor.start buff).remaining = f.encodeWith ins ++ [] := encoded.trans (List.append_nil _).symm
  obtain ⟨c', ran, onward⟩ := reads_with spare known (.start buff) [] forward whole
  have position := onward.pos forward whole
  exact ⟨c', ran, by rw [position]; exact Int.zero_add _⟩

theorem known_readBack (read : f.ReadBack ins buff) (u : UnknownField) :
    (f.fields ins).getLast? ≠ some (.unknown u) := by
  intro last
  obtain ⟨c', ran, ended⟩ := read
  obtain ⟨same, left⟩ := fallsShort_with spare last _ (Cursor.start_forward buff) encoded _ _ ran
  apply left
  rw [Cursor.remaining, same, ended, Int.toNat_natCast]
  exact List.drop_eq_nil_of_le (Nat.le_of_eq (congrArg List.length encoded))

end ReadBack

/-- A request whose unknown fields are all empty and have a known field behind them is read back to its end. If they are
empty but for the last one of all, it is read back exactly if its last field is a known one. -/
theorem unknown_tags_iff (f : FetchRequest) (ins : Insertion) (buff : Octets)
    (encoded : buff.bytes = f.encodeWith ins) :
    (f.Skippable ins → f.ReadBack ins buff) ∧
      (f.Spare ins → (f.ReadBack ins buff ↔ ∀ u, (f.fields ins).getLast? ≠ some (.unknown u))) :=
  ⟨fun skippable => readBack_known encoded skippable.spare skippable.known,
    fun spare => ⟨known_readBack encoded spare, readBack_known encoded spare⟩⟩

def replicaRequest : FetchRequest := ⟨500, 1, 1024, 0, 0, -1, .nil, .nil, .nil, none, some ⟨2, 7⟩⟩

def tagFive (payload : Bytes) : UnknownField := ⟨5, payload, by decide, by decide⟩

def fiveBefore (payload : Bytes) : Insertion := ⟨⟨[tagFive payload], [], []⟩, fun _ _ => .none⟩

def fiveBehind (payload : Bytes) : Insertion := ⟨⟨[], [], [tagFive payload]⟩, fun _ _ => .none⟩

theorem unknown_tags_before :
    ∃ c', FetchRequest.decode (.start ⟨replicaRequest.encodeWith (fiveBefore []), by decide +kernel⟩) =
        (.ok replicaRequest, c') ∧ c'.pos = (replicaRequest.encodeWith (fiveBefore [])).length := by
  refine (unknown_tags_iff replicaRequest (fiveBefore []) _ rfl).1 ⟨?_, ?_, ?_⟩
  · intro i t found
    cases found
  · intro u member
    rcases List.mem_cons.mp member with here | later
    · obtain rfl := Field.unknown.inj here
      rfl
    · cases List.mem_singleton.mp later
  · intro u last
    cases last

/-- Behind the known field an empty one fails and a payload is left; before it, a payload of one byte makes the
request lose its replica state. -/
theorem unknown_tag_not_skipped :
    (FetchRequest.decode (.start ⟨replicaRequest.encodeWith (fiveBehind []), by decide +kernel⟩)).1.map (fun _ => ()) =
        .error (.error "skip unknown tag 5: EOF") ∧
      (FetchRequest.decode (.start ⟨replicaRequest.encodeWith (fiveBehind [1, 2]), by decide +kernel⟩)).2.remaining =
        [1, 2] ∧
      (FetchRequest.decode (.start ⟨replicaRequest.encodeWith (fiveBefore [9]), by decide +kernel⟩)).1.map
        (fun f => f.replicaState.isSome) = .ok false := by
  decide +kernel

def clusterRequest : FetchRequest :=
  ⟨500, 1, 1024, 0, 0, -1, .nil, .nil, .nil, some ⟨[120], by decide⟩, none⟩

-- A payload that runs into the next tag as the first digit of a longer number: nothing is lost, by chance.
example : (FetchRequest.decode (.start ⟨clusterRequest.encodeWith (fiveBefore [0x80]), by decide +kernel⟩)).1.map
      (fun f => (f.clusterId.map (·.bytes), f.replicaState.isSome)) = .ok (some [120], false) ∧
    (FetchRequest.decode
      (.start ⟨clusterRequest.encodeWith (fiveBefore [0x80]), by decide +kernel⟩)).2.remaining = [] := by
  decide +kernel

end FetchRequest

end KafGo.Wire
