import KafGo.Lib.ByteReader
import KafGo.Lib.Crc32c
import KafGo.Lib.SortedMap
import KafGo.Lib.Walk

/-!
The layout of a single message in a log file. A message is written with its size and a checksum in front and with its
headers in the order of their names. The checksum covers what follows it.
-/

namespace KafGo.Storage
open Lib

/-- The timestamp in nanoseconds. Header names are strings, which are bytes and sort as bytes. -/
structure Message where
  offset : Int64
  timestamp : Int64
  key : Bytes
  value : Bytes
  headers : SortedMap Bytes Bytes
  deriving DecidableEq

inductive MessageError where
  | reader (e : EndOfInput)
  | crcMismatch (expected got : UInt32)
  deriving DecidableEq

instance : Coe EndOfInput MessageError := ⟨.reader⟩

/-- A length of four bytes and the bytes. -/
def sized (bs : Bytes) : Bytes := beBytes 4 bs.length ++ bs

def headerBytes (headers : List (Bytes × Bytes)) : Bytes := headers.flatMap fun h => sized h.1 ++ sized h.2

namespace Message

def headerSize (m : Message) : Nat :=
  m.headers.entries.foldl (fun size h => size + (4 + h.1.length + 4 + h.2.length)) 4

def payloadSize (m : Message) : Nat := 8 + 8 + 4 + m.key.length + 4 + m.value.length + m.headerSize

def totalSize (m : Message) : Nat := 4 + m.payloadSize

def payload (m : Message) : Bytes :=
  beBytes 8 m.offset.toUInt64.toNat ++ (beBytes 8 m.timestamp.toUInt64.toNat ++ (sized m.key ++ (sized m.value ++
    (beBytes 4 m.headers.entries.length ++ headerBytes m.headers.entries))))

end Message

def serializeMessage (m : Message) : Bytes :=
  beBytes 4 m.totalSize ++ (beBytes 4 (checksumIEEE m.payload).toNat ++ m.payload)

abbrev MessageReader := ByteReader MessageError

open ByteReader

/-- One turn of the loop over the headers. The state is the map so far and the number of bytes read. -/
def readHeader (st : SortedMap Bytes Bytes × Nat) : MessageReader (SortedMap Bytes Bytes × Nat) := do
  let keyHeaderLen ← readUint 4
  let keyBytes ← read keyHeaderLen
  let valueHeaderLen ← readUint 4
  let valueBytes ← read valueHeaderLen
  return (st.1.insert keyBytes valueBytes, st.2 + 4 + keyHeaderLen + 4 + valueHeaderLen)

def readHeaders : Nat → SortedMap Bytes Bytes × Nat → MessageReader (SortedMap Bytes Bytes × Nat)
  | 0, st => return st
  | n + 1, st => do readHeaders n (← readHeader st)

def checkCrc (crc : UInt32) (payload : Bytes) : MessageReader Unit :=
  if checksumIEEE payload ≠ crc then throw (.crcMismatch crc (checksumIEEE payload)) else return ()

/-- The reads from the buffer that holds what the size counts. -/
def readBuff (buff : Bytes) : MessageReader (Message × Nat) := do
  let crc ← readUint 4
  checkCrc (.ofNat crc) (buff.drop 4)
  let offset ← readUint 8
  let timestamp ← readUint 8
  let keyLen ← readUint 4
  let key ← read keyLen
  let valueLen ← readUint 4
  let value ← read valueLen
  let headerCount ← readUint 4
  let (headers, byteRead) ← readHeaders headerCount (.empty, 4 + 4 + 8 + 8 + 4 + keyLen + 4 + valueLen + 4)
  return (⟨(UInt64.ofNat offset).toInt64, (UInt64.ofNat timestamp).toInt64, key, value, headers⟩, byteRead)

def deserializeMessage : MessageReader (Message × Nat) := do
  let size ← readUint 4
  let buff ← readFull size
  StateT.lift ((readBuff buff).run' buff)

theorem length_sized (bs : Bytes) : (sized bs).length = 4 + bs.length := by
  rw [sized, List.length_append, length_beBytes]

theorem length_headerBytes_cons (h : Bytes × Bytes) (rest : List (Bytes × Bytes)) :
    (headerBytes (h :: rest)).length = 4 + h.1.length + 4 + h.2.length + (headerBytes rest).length := by
  simp only [headerBytes, List.flatMap_cons, List.length_append, length_sized]
  omega

theorem foldl_headerBytes (headers : List (Bytes × Bytes)) (n : Nat) :
    headers.foldl (fun size h => size + (4 + h.1.length + 4 + h.2.length)) n = n + (headerBytes headers).length := by
  induction headers generalizing n with
  | nil => rfl
  | cons h rest ih =>
    rw [List.foldl_cons, ih, length_headerBytes_cons]
    omega

theorem sized_ne_nil (bs rest : Bytes) : sized bs ++ rest ≠ [] := by
  apply List.ne_nil_of_length_pos
  rw [List.length_append, length_sized]
  omega

theorem length_le_headerBytes (headers : List (Bytes × Bytes)) : headers.length ≤ (headerBytes headers).length :=
  length_le_flatMap fun _ _ => sized_ne_nil _ _

namespace Message

theorem headerSize_eq (m : Message) : m.headerSize = 4 + (headerBytes m.headers.entries).length :=
  foldl_headerBytes _ _

theorem totalSize_eq (m : Message) :
    m.totalSize = 32 + m.key.length + m.value.length + (headerBytes m.headers.entries).length := by
  rw [totalSize, payloadSize, headerSize_eq]
  omega

theorem length_payload (m : Message) : m.payload.length = m.payloadSize := by
  simp only [payload, payloadSize, headerSize_eq, List.length_append, length_beBytes, length_sized]
  omega

end Message

theorem length_serializeMessage (m : Message) : (serializeMessage m).length = 4 + m.totalSize := by
  simp only [serializeMessage, Message.totalSize, List.length_append, length_beBytes, Message.length_payload]

variable {rest : Bytes} {h : Bytes × Bytes} {m : Message}

theorem run_sized {α : Type} {bs : Bytes} (k : Nat → Bytes → MessageReader α) (small : bs.length < 2 ^ 32)
    (more : bs ++ rest ≠ []) :
    (do let n ← readUint 4; let read ← read n; k n read : MessageReader α).run (sized bs ++ rest) =
      (k bs.length bs).run rest := by
  rw [sized, List.append_assoc, (takes_readUint small _).run_bind, (takes_read more).run_bind]

theorem takes_readHeader (st : SortedMap Bytes Bytes × Nat) (name : h.1.length < 2 ^ 32) (value : h.2.length < 2 ^ 32)
    (more : h.2 ++ rest ≠ []) :
    Takes (readHeader st) (sized h.1 ++ sized h.2) rest
      (st.1.insert h.1 h.2, st.2 + 4 + h.1.length + 4 + h.2.length) := by
  have behind : h.1 ++ (sized h.2 ++ rest) ≠ [] := List.append_ne_nil_of_right_ne_nil _ (sized_ne_nil _ _)
  unfold Takes readHeader
  rw [List.append_assoc, run_sized _ name behind, run_sized _ value more]
  rfl

theorem readHeader_end (st : SortedMap Bytes Bytes × Nat) (name : h.1.length < 2 ^ 32) (empty : h.2 = []) :
    (readHeader st).run (sized h.1 ++ sized h.2) = .error (.reader .eof) := by
  have behind : h.1 ++ sized [] ≠ [] := List.append_ne_nil_of_right_ne_nil _ (by decide)
  have none : ([] : Bytes).length < 256 ^ 4 := by
    rw [List.length_nil]
    omega
  unfold readHeader
  rw [empty, run_sized _ name behind, sized, (takes_readUint none _).run_bind]
  rfl

/-- The names come in their order, so each goes to the end of the map. -/
theorem takes_readHeaders {entries : List (Bytes × Bytes)} (st : SortedMap Bytes Bytes × Nat)
    (small : (headerBytes entries).length < 2 ^ 32) (sorted : (st.1.entries ++ entries).Pairwise (·.1 < ·.1))
    (more : ∀ h ∈ entries.getLast?, h.2 ++ rest ≠ []) :
    Takes (readHeaders entries.length st) (headerBytes entries) rest
      (⟨st.1.entries ++ entries, sorted⟩, st.2 + (headerBytes entries).length) := by
  induction entries generalizing st with
  | nil =>
    have same : (⟨st.1.entries ++ [], sorted⟩ : SortedMap Bytes Bytes) = st.1 := SortedMap.ext (List.append_nil _)
    rw [same]
    rfl
  | cons h later ih =>
    rw [length_headerBytes_cons] at small
    have front : h.2 ++ (headerBytes later ++ rest) ≠ [] := by
      cases later with
      | nil => exact more h rfl
      | cons next others =>
        apply List.append_ne_nil_of_right_ne_nil
        simp only [headerBytes, List.flatMap_cons, List.append_assoc]
        exact sized_ne_nil _ _
    have last : ∀ e ∈ st.1.entries, e.1 < h.1 := fun e inside =>
      (List.pairwise_append.mp sorted).2.2 e inside h List.mem_cons_self
    have grown : (st.1.insert h.1 h.2).entries ++ later = st.1.entries ++ h :: later := by
      rw [SortedMap.insert_last last, List.append_assoc]
      rfl
    have behind : ∀ e ∈ later.getLast?, e.2 ++ rest ≠ [] := by
      intro e inside
      apply more e
      rw [List.getLast?_cons, inside]
      rfl
    have front' := takes_readHeader st (by omega) (by omega) front
    have taken := ih (st.1.insert h.1 h.2, st.2 + 4 + h.1.length + 4 + h.2.length) (by omega) (grown ▸ sorted) behind
    have map : (⟨(st.1.insert h.1 h.2).entries ++ later, grown ▸ sorted⟩ : SortedMap Bytes Bytes) =
        ⟨st.1.entries ++ h :: later, sorted⟩ := SortedMap.ext grown
    have bytes : headerBytes (h :: later) = (sized h.1 ++ sized h.2) ++ headerBytes later := rfl
    have count : st.2 + 4 + h.1.length + 4 + h.2.length + (headerBytes later).length =
        st.2 + (headerBytes (h :: later)).length := by
      rw [length_headerBytes_cons]
      omega
    unfold Takes at taken ⊢
    rw [bytes, List.append_assoc, List.length_cons, readHeaders, front'.run_bind, taken, map, count, bytes]

theorem readHeaders_end (before : List (Bytes × Bytes)) (st : SortedMap Bytes Bytes × Nat)
    (small : (headerBytes (before ++ [h])).length < 2 ^ 32) (empty : h.2 = []) :
    (readHeaders (before ++ [h]).length st).run (headerBytes (before ++ [h])) = .error (.reader .eof) := by
  induction before generalizing st with
  | nil =>
    rw [List.nil_append, length_headerBytes_cons] at small
    have bytes : headerBytes ([] ++ [h]) = sized h.1 ++ sized h.2 := by
      rw [List.nil_append, headerBytes, List.flatMap_singleton]
    have ended := readHeader_end st (by omega) empty
    rw [bytes, List.nil_append, List.length_singleton, readHeaders, StateT.run_bind, ended]
    rfl
  | cons first later ih =>
    rw [List.cons_append, length_headerBytes_cons] at small
    have front : first.2 ++ headerBytes (later ++ [h]) ≠ [] := by
      apply List.append_ne_nil_of_right_ne_nil
      rw [headerBytes, List.flatMap_append, List.flatMap_singleton]
      exact List.append_ne_nil_of_right_ne_nil _ (sized_ne_nil _ _)
    have taken := takes_readHeader st (by omega) (by omega) front
    have bytes : headerBytes (first :: (later ++ [h])) =
        (sized first.1 ++ sized first.2) ++ headerBytes (later ++ [h]) := rfl
    rw [List.cons_append, bytes, List.length_cons, readHeaders, taken.run_bind]
    exact ih _ (by omega)

def Message.fixedSize (m : Message) : Nat := 4 + 4 + 8 + 8 + 4 + m.key.length + 4 + m.value.length + 4

theorem run_checkCrc {α : Type} (payload rest : Bytes) (k : Unit → MessageReader α) :
    (checkCrc (checksumIEEE payload) payload >>= k).run rest = (k ()).run rest := by
  rw [checkCrc, if_neg (not_not.mpr rfl), pure_bind]

theorem readBuff_run (fits : m.totalSize < 2 ^ 32) :
    (readBuff (beBytes 4 (checksumIEEE m.payload).toNat ++ m.payload)).run
        (beBytes 4 (checksumIEEE m.payload).toNat ++ m.payload) =
      (do
        let st ← readHeaders m.headers.entries.length (.empty, m.fixedSize)
        return (⟨m.offset, m.timestamp, m.key, m.value, st.1⟩, st.2) : MessageReader (Message × Nat)).run
        (headerBytes m.headers.entries) := by
  have sizes := m.totalSize_eq
  have count := length_le_headerBytes m.headers.entries
  have crc : (checksumIEEE m.payload).toNat < 256 ^ 4 := (checksumIEEE m.payload).toNat_lt
  have offset : m.offset.toUInt64.toNat < 256 ^ 8 := m.offset.toUInt64.toNat_lt
  have timestamp : m.timestamp.toUInt64.toNat < 256 ^ 8 := m.timestamp.toUInt64.toNat_lt
  have behind : m.value ++ (beBytes 4 m.headers.entries.length ++ headerBytes m.headers.entries) ≠ [] := by
    apply List.ne_nil_of_length_pos
    simp only [List.length_append, length_beBytes]
    omega
  have payload : (beBytes 4 (checksumIEEE m.payload).toNat ++ m.payload).drop 4 = m.payload :=
    List.drop_left' (length_beBytes _ _)
  unfold readBuff
  rw [(takes_readUint crc _).run_bind, UInt32.ofNat_toNat, payload, run_checkCrc, Message.payload,
    (takes_readUint offset _).run_bind, (takes_readUint timestamp _).run_bind,
    run_sized _ (by omega) (List.append_ne_nil_of_right_ne_nil _ (sized_ne_nil _ _)),
    run_sized _ (by omega) behind, (takes_readUint (by omega) _).run_bind]
  simp only [UInt64.ofNat_toNat, Int64.toInt64_toUInt64]
  rfl

theorem deserializeMessage_run (fits : m.totalSize < 2 ^ 32) (rest : Bytes) :
    deserializeMessage.run (serializeMessage m ++ rest) =
      ((readBuff (beBytes 4 (checksumIEEE m.payload).toNat ++ m.payload)).run'
        (beBytes 4 (checksumIEEE m.payload).toNat ++ m.payload)).map (·, rest) := by
  have size : (beBytes 4 (checksumIEEE m.payload).toNat ++ m.payload).length = m.totalSize := by
    rw [List.length_append, length_beBytes, Message.length_payload, Message.totalSize]
  have full : Takes (readFull m.totalSize : MessageReader Bytes) _ rest _ := size ▸ takes_readFull _ rest
  unfold deserializeMessage
  rw [serializeMessage, List.append_assoc, (takes_readUint fits _).run_bind, full.run_bind]
  rfl

theorem deserialize_serialize (fits : m.totalSize < 2 ^ 32) (last : ∀ h ∈ m.headers.entries.getLast?, h.2 ≠ [])
    (rest : Bytes) :
    deserializeMessage.run (serializeMessage m ++ rest) = .ok ((m, (serializeMessage m).length), rest) := by
  have sizes := m.totalSize_eq
  have more : ∀ h ∈ m.headers.entries.getLast?, h.2 ++ [] ≠ [] := fun h inside => by
    rw [List.append_nil]
    exact last h inside
  have small : (headerBytes m.headers.entries).length < 2 ^ 32 := by omega
  have taken := takes_readHeaders (.empty, m.fixedSize) small m.headers.sorted more
  have count : m.fixedSize + (headerBytes m.headers.entries).length = (serializeMessage m).length := by
    rw [length_serializeMessage, sizes, Message.fixedSize]
    omega
  unfold Takes at taken
  rw [List.append_nil] at taken
  rw [deserializeMessage_run fits, StateT.run'_eq, readBuff_run fits, StateT.run_bind, taken, ← count]
  rfl

theorem deserialize_end (fits : m.totalSize < 2 ^ 32) (last : m.headers.entries.getLast? = some h) (empty : h.2 = [])
    (rest : Bytes) :
    deserializeMessage.run (serializeMessage m ++ rest) = .error (.reader .eof) := by
  have sizes := m.totalSize_eq
  obtain ⟨before, split⟩ := List.getLast?_eq_some_iff.mp last
  have ended := readHeaders_end before (.empty, m.fixedSize) (split ▸ by omega) empty
  rw [← split] at ended
  rw [deserializeMessage_run fits, StateT.run'_eq, readBuff_run fits, StateT.run_bind, ended]
  rfl

/-- A message is read back from what was written unless its last header, in the order of the names, has an empty
value. That value is read at the end of the buffer, where the read fails. -/
theorem message_read_back_iff (m : Message) (fits : m.totalSize < 2 ^ 32) (rest : Bytes) :
    deserializeMessage.run (serializeMessage m ++ rest) = .ok ((m, (serializeMessage m).length), rest) ↔
      ∀ h ∈ m.headers.entries.getLast?, h.2 ≠ [] := by
  constructor
  · intro back h last empty
    rw [deserialize_end fits last empty] at back
    cases back
  · exact fun last => deserialize_serialize fits last rest

def twoHeaders : Message where
  offset := 7
  timestamp := -1
  key := []
  value := [1, 2]
  headers := ⟨[([97], []), ([98], [3])], by decide⟩

theorem message_read_back_two :
    deserializeMessage.run (serializeMessage twoHeaders ++ [9, 9]) =
      .ok ((twoHeaders, (serializeMessage twoHeaders).length), [9, 9]) :=
  (message_read_back_iff twoHeaders (by decide) [9, 9]).mpr (by decide)

def emptyTrace : Message where
  offset := 0
  timestamp := 0
  key := [107, 101, 121]
  value := [118, 97, 108, 117, 101]
  headers := ⟨[([116, 114, 97, 99, 101], [])], by decide⟩

theorem empty_header_not_read :
    emptyTrace.totalSize < 2 ^ 32 ∧ deserializeMessage.run (serializeMessage emptyTrace) = .error (.reader .eof) := by
  have fits : emptyTrace.totalSize < 2 ^ 32 := by decide
  have ended := deserialize_end (h := ([116, 114, 97, 99, 101], [])) fits rfl rfl []
  rw [List.append_nil] at ended
  exact ⟨fits, ended⟩

end KafGo.Storage
