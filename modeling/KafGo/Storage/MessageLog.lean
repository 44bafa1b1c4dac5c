import KafGo.Lib.Machine
import KafGo.Storage.CommitLog
import KafGo.Storage.Message

/-!
Single messages in a commit log: `Append` writes them in the layout of a message, `Read` reads them back. The roll to a
new segment and the opening of a log are those of the record batches, and they take the file for a run of batches.
-/

namespace KafGo.Storage
open Lib

inductive ReadFailure where
  | closed
  | belowBase (offset base : Int)
  | message (e : MessageError)
  | panics
  | diverges
  deriving DecidableEq

/-- A message as the caller hands it over. No timestamp is the zero time; the offset is overwritten. -/
structure Draft where
  timestamp : Option Int64
  key : Bytes
  value : Bytes
  headers : SortedMap Bytes Bytes

/-- The offsets from `nextOffset` on, and `time.Now()` at the turn of each message that has no timestamp. -/
def assignOffsets (nextOffset : Int) : List (Draft × Int64) → List Message
  | [] => []
  | (d, now) :: rest =>
    ⟨.ofInt nextOffset, d.timestamp.getD now, d.key, d.value, d.headers⟩ :: assignOffsets (nextOffset + 1) rest

namespace Segment

/-- The write, the size and the index entry, as `AppendRaw` and each turn of `Append` have them. An index error is
reported after the bytes are already in the file. -/
def store (s : Segment) (position offset : Int) (data : Bytes) : Segment × Except LogError Unit :=
  let s := { s with logFile := s.logFile ++ data, currentSize := s.currentSize + data.length }
  if s.offsetIndex.entryCount = 0 ∨ position - s.lastIndexedPosition ≥ s.indexInterval then
    match s.offsetIndex.append offset position with
    | .ok idx => ({ s with offsetIndex := idx, lastIndexedPosition := position }, .ok ())
    | .error e => (s, .error e)
  else (s, .ok ())

theorem appendRaw_store {s : Segment} {data : Bytes} (long : 8 ≤ data.length) (baseOffset : Int) :
    s.appendRaw baseOffset data = s.store s.logFile.length baseOffset (putBaseOffset baseOffset data) :=
  if_neg (Nat.not_lt.mpr long)

def appendMessage (s : Segment) (position : Int) (m : Message) : Segment × Except LogError Unit :=
  s.store position m.offset.toInt (serializeMessage m)

def appendMessages (s : Segment) (position : Int) : List Message → Segment × Except LogError Unit
  | [] => (s, .ok ())
  | m :: rest =>
    match s.appendMessage position m with
    | (s, .error e) => (s, .error e)
    | (s, .ok ()) => s.appendMessages (position + (serializeMessage m).length) rest

def append (s : Segment) (messages : List Message) : Segment × Except LogError Unit :=
  s.appendMessages s.logFile.length messages

/-- The loop of `Read` over what is left of the file, with the messages and the number of bytes so far. A message
below the offset does not count. -/
def readMessages (offset maxBytes : Int) : Nat → Bytes → List Message × Int → Except ReadFailure (List Message)
  | 0, _, _ => .error .diverges
  | fuel + 1, rest, (messages, bytesRead) =>
    if bytesRead < maxBytes then
      match deserializeMessage.run rest with
      | .error e => if e = .reader .eof then .ok messages else .error (.message e)
      | .ok ((m, byteRead), rest) =>
        if m.offset.toInt < offset then readMessages offset maxBytes fuel rest (messages, bytesRead)
        else readMessages offset maxBytes fuel rest (messages ++ [m], bytesRead + byteRead)
    else .ok messages

/-- Every message takes bytes off the file, so the loop does not use up its fuel. -/
def read (s : Segment) (offset maxBytes : Int) : Except ReadFailure (List Message) :=
  if offset < s.baseOffset then .error (.belowBase offset s.baseOffset)
  else readMessages offset maxBytes s.fuel (s.logFile.drop (s.offsetIndex.lookup offset)) ([], 0)

end Segment

/-- `make([]Message, 0, maxBytes)` with 88 bytes for each message. -/
def allocatable [Memory] (maxBytes : Int) : Prop := 0 ≤ maxBytes ∧ Allocates (maxBytes.toNat * 88) []

instance [Memory] (maxBytes : Int) : Decidable (allocatable maxBytes) := inferInstanceAs (Decidable (_ ∧ _))

namespace CommitLog

/-- The offsets are given out before the write, and stay so when it fails. -/
def append (c : CommitLog) (messages : List (Draft × Int64)) : CommitLog × Except LogError Int :=
  if c.isClosed then (c, .error .closed)
  else
    let c := if c.activeSegment.isFull then c.roll else c
    let next := c.nextOffset + messages.length
    match c.activeSegment.append (assignOffsets c.nextOffset messages) with
    | (active, .error e) => ({ c with activeSegment := active, nextOffset := next }, .error e)
    | (active, .ok ()) => ({ c with activeSegment := active, nextOffset := next }, .ok c.nextOffset)

/-- The loop of `Read` over the segments, each with the offset to read it from. -/
def readSegments (maxBytes : Int) : List (Segment × Int) → List Message × Int → Except ReadFailure (List Message)
  | [], (messages, _) => .ok messages
  | (s, readOffset) :: rest, (messages, byteReads) =>
    if byteReads < maxBytes then
      match s.read readOffset (maxBytes - byteReads) with
      | .error e => .error e
      | .ok msgs =>
        readSegments maxBytes rest (messages ++ msgs, msgs.foldl (fun n m => n + (serializeMessage m).length) byteReads)
    else .ok messages

/-- The first segment is read from `offset` and the later ones from their start. -/
def read [Memory] (c : CommitLog) (offset maxBytes : Int) : Except ReadFailure (List Message) :=
  if c.isClosed then .error .closed
  else
    let segmentIndex := c.findSegmentByOffset offset
    if segmentIndex < 0 then .ok []
    else if ¬ allocatable maxBytes then .error .panics
    else
      match c.segments.drop segmentIndex.toNat with
      | [] => .ok []
      | s :: rest => readSegments maxBytes ((s, offset) :: rest.map fun s => (s, s.baseOffset)) ([], 0)

end CommitLog

/-- A log and the messages that `Append` has taken, with the offsets they got. -/
structure Recorded where
  log : CommitLog
  taken : List Message

inductive LogAction where
  | append (messages : List (Draft × Int64))
  | reopen

/-- An append that fails ends the run. -/
def Recorded.step (config : CommitLogConfig) : LogAction → Recorded → Option Recorded
  | .append messages, r =>
    match r.log.append messages with
    | (_, .error _) => none
    | (log, .ok _) => some ⟨log, r.taken ++ assignOffsets r.log.nextOffset messages⟩
  | .reopen, r => some ⟨newCommitLog config r.log.close, r.taken⟩

def messageMachine (config : CommitLogConfig) : Machine Recorded LogAction where
  start r := r = ⟨newCommitLog config [], []⟩
  step := Recorded.step config

def messageBytes (ms : List Message) : Bytes := ms.flatMap serializeMessage

@[simp] theorem messageBytes_nil : messageBytes [] = [] := rfl

@[simp] theorem messageBytes_cons (m : Message) (ms : List Message) :
    messageBytes (m :: ms) = serializeMessage m ++ messageBytes ms := List.flatMap_cons

@[simp] theorem messageBytes_append (ms ns : List Message) :
    messageBytes (ms ++ ns) = messageBytes ms ++ messageBytes ns := List.flatMap_append

theorem serializeMessage_ne_nil (m : Message) : serializeMessage m ≠ [] := by
  apply List.ne_nil_of_length_pos
  rw [length_serializeMessage]
  omega

theorem length_le_messageBytes (ms : List Message) : ms.length ≤ (messageBytes ms).length :=
  length_le_flatMap fun m _ => serializeMessage_ne_nil m

variable {ms : List Message} {m : Message} {n : Nat}

theorem length_le_of_mem (member : m ∈ ms) :
    (serializeMessage m).length ≤ (messageBytes ms).length := by
  obtain ⟨before, after, rfl⟩ := List.append_of_mem member
  rw [messageBytes_append, messageBytes_cons, List.length_append, List.length_append]
  omega

def Message.Readable (m : Message) : Prop :=
  m.totalSize < 2 ^ 32 ∧ ∀ h ∈ m.headers.entries.getLast?, h.2 ≠ []

def Numbered : Nat → List Message → Prop
  | _, [] => True
  | n, m :: ms => m.offset.toInt = n ∧ Numbered (n + 1) ms

theorem numbered_append {ns : List Message} :
    Numbered n (ms ++ ns) ↔ Numbered n ms ∧ Numbered (n + ms.length) ns := by
  induction ms generalizing n with
  | nil => simp [Numbered]
  | cons m ms ih =>
    rw [List.cons_append, Numbered, Numbered, ih, List.length_cons, and_assoc,
      Nat.add_assoc n 1, Nat.add_comm 1]

theorem Numbered.getElem? {i : Nat} (numbered : Numbered n ms) (found : ms[i]? = some m) : m.offset.toInt = n + i := by
  induction ms generalizing n i with
  | nil => cases found
  | cons first ms ih =>
    cases i with
    | zero =>
      obtain rfl := Option.some.inj found
      rw [numbered.1]
      rfl
    | succ i =>
      rw [ih numbered.2 found]
      omega

theorem Numbered.filter {o : Nat} (numbered : Numbered n ms) (low : n ≤ o) :
    ms.filter (fun m => ¬ m.offset.toInt < (o : Int)) = ms.drop (o - n) := by
  induction ms generalizing n with
  | nil => rw [List.filter_nil, List.drop_nil]
  | cons m ms ih =>
    have whole := numbered
    obtain ⟨first, rest⟩ := numbered
    rcases Nat.lt_or_eq_of_le low with below | rfl
    · have dropped : o - n = o - (n + 1) + 1 := by omega
      have skipped : m.offset.toInt < o := by omega
      rw [List.filter_cons_of_neg (by simpa using skipped), ih rest below, dropped, List.drop_succ_cons]
    · rw [Nat.sub_self, List.drop_zero, List.filter_eq_self]
      intro k member
      obtain ⟨i, found⟩ := List.getElem?_of_mem member
      have offset := whole.getElem? found
      simp only [decide_eq_true_eq]
      omega

theorem numbered_assignOffsets (messages : List (Draft × Int64)) (small : n + messages.length < 2 ^ 63) :
    Numbered n (assignOffsets n messages) := by
  induction messages generalizing n with
  | nil => trivial
  | cons first rest ih =>
    rw [List.length_cons] at small
    refine ⟨?_, ?_⟩
    · exact Int64.toInt_ofInt_of_le (by omega) (by omega)
    · exact ih (by omega)

theorem length_assignOffsets (nextOffset : Int) (messages : List (Draft × Int64)) :
    (assignOffsets nextOffset messages).length = messages.length := by
  induction messages generalizing nextOffset with
  | nil => rfl
  | cons first rest ih => rw [assignOffsets, List.length_cons, ih, List.length_cons]

theorem deserializeMessage_nil : deserializeMessage.run [] = .error (.reader .eof) := rfl

/-- With enough bytes allowed the loop reads all messages and keeps those from the offset on. -/
theorem readMessages_all {offset maxBytes : Int} (readable : ∀ m ∈ ms, m.Readable) {fuel : Nat}
    (enough : ms.length < fuel) (found : List Message) {bytesRead : Int}
    (large : bytesRead + (messageBytes ms).length ≤ maxBytes) :
    Segment.readMessages offset maxBytes fuel (messageBytes ms) (found, bytesRead) =
      .ok (found ++ ms.filter (fun m => ¬ m.offset.toInt < offset)) := by
  induction ms generalizing fuel found bytesRead with
  | nil =>
    obtain ⟨fuel, rfl⟩ := Nat.exists_eq_add_one_of_ne_zero (Nat.ne_zero_of_lt enough)
    rw [Segment.readMessages, List.filter_nil, List.append_nil, messageBytes_nil, deserializeMessage_nil]
    split <;> rfl
  | cons m ms ih =>
    obtain ⟨fuel, rfl⟩ := Nat.exists_eq_add_one_of_ne_zero (Nat.ne_zero_of_lt enough)
    have size := length_serializeMessage m
    have back := deserialize_serialize (readable m List.mem_cons_self).1 (readable m List.mem_cons_self).2
      (messageBytes ms)
    have fewer : ms.length < fuel := Nat.lt_of_succ_lt_succ enough
    have later := ih (fun k member => readable k (List.mem_cons_of_mem _ member)) fewer
    rw [messageBytes_cons, List.length_append] at large
    rw [Segment.readMessages, if_pos (by omega), messageBytes_cons, back]
    dsimp only
    by_cases below : m.offset.toInt < offset
    · rw [if_pos below, later found (by omega), List.filter_cons_of_neg (by simpa using below)]
    · rw [if_neg below, later (found ++ [m]) (by omega), List.filter_cons_of_pos (by simpa using below),
        List.append_assoc]
      rfl

/-- Every entry of the index is for one of the messages. -/
structure Segment.HoldsMessages (s : Segment) (ms : List Message) : Prop where
  based : s.baseOffset = 0
  file : s.logFile = messageBytes ms
  small : s.logFile.length ≤ 2 ^ 32
  indexBase : s.offsetIndex.baseOffset = 0
  mapped : s.offsetIndex.Mapped
  entries : ∀ i < s.offsetIndex.entryCount, ∃ k < ms.length,
    s.offsetIndex.entryOffset i = k ∧ s.offsetIndex.entryPosition i = (messageBytes (ms.take k)).length
  numbered : Numbered 0 ms
  readable : ∀ m ∈ ms, m.Readable

namespace Segment.HoldsMessages

variable {s : Segment} {ms : List Message}

theorem entries_append (held : s.HoldsMessages ms) (m : Message) : ∀ i < s.offsetIndex.entryCount,
    ∃ k < (ms ++ [m]).length, s.offsetIndex.entryOffset i = k ∧
      s.offsetIndex.entryPosition i = (messageBytes ((ms ++ [m]).take k)).length := by
  intro i below
  obtain ⟨k, inside, offset, position⟩ := held.entries i below
  refine ⟨k, by rw [List.length_append]; omega, offset, ?_⟩
  rw [List.take_append_of_le_length (by omega)]
  exact position

theorem appendMessage (held : s.HoldsMessages ms) {m : Message} (numbered : m.offset.toInt = ms.length)
    (readable : m.Readable) (fits : s.logFile.length + (serializeMessage m).length ≤ 2 ^ 32) :
    ∃ s', s.appendMessage s.logFile.length m = (s', .ok ()) ∧ s'.HoldsMessages (ms ++ [m]) ∧
      s'.logFile.length = s.logFile.length + (serializeMessage m).length := by
  have older := held.entries_append m
  have size := length_serializeMessage m
  have count := length_le_messageBytes ms
  rw [← held.file] at count
  have numbers : Numbered 0 (ms ++ [m]) := numbered_append.mpr ⟨held.numbered, by rw [numbered, Nat.zero_add], trivial⟩
  have all : ∀ k ∈ ms ++ [m], k.Readable := by
    intro k member
    rcases List.mem_append.mp member with old | new
    · exact held.readable k old
    · exact List.mem_singleton.mp new ▸ readable
  have file : s.logFile ++ serializeMessage m = messageBytes (ms ++ [m]) := by
    rw [held.file, messageBytes_append, messageBytes_cons, messageBytes_nil, List.append_nil]
  have small : (s.logFile ++ serializeMessage m).length ≤ 2 ^ 32 := by
    rw [List.length_append]
    exact fits
  unfold Segment.appendMessage Segment.store
  dsimp only
  split
  · obtain ⟨idx, appended, mapped, base, grown, offset, position, others⟩ :=
      OffsetIndex.append_ok held.mapped m.offset.toInt s.logFile.length
    rw [appended]
    refine ⟨_, rfl, ⟨held.based, file, small, base.trans held.indexBase, mapped, ?_, numbers, all⟩,
      List.length_append⟩
    intro i below
    dsimp only at below ⊢
    rcases Nat.lt_or_eq_of_le (Nat.lt_succ_iff.mp (grown ▸ below)) with earlier | rfl
    · rw [(others i earlier).1, (others i earlier).2]
      exact older i earlier
    · refine ⟨ms.length, by simp, ?_, ?_⟩
      · rw [offset, held.indexBase, Int.sub_zero, numbered, unsigned_natCast, Nat.mod_eq_of_lt (by omega)]
      · rw [position, unsigned_natCast, Nat.mod_eq_of_lt (by omega), held.file, List.take_left]
  · exact ⟨_, rfl, ⟨held.based, file, small, held.indexBase, held.mapped, older, numbers, all⟩, List.length_append⟩

theorem appendMessages (held : s.HoldsMessages ms) {ns : List Message} (numbered : Numbered ms.length ns)
    (readable : ∀ m ∈ ns, m.Readable) (fits : s.logFile.length + (messageBytes ns).length ≤ 2 ^ 32) :
    ∃ s', s.appendMessages s.logFile.length ns = (s', .ok ()) ∧ s'.HoldsMessages (ms ++ ns) := by
  induction ns generalizing s ms with
  | nil => exact ⟨s, rfl, by rwa [List.append_nil]⟩
  | cons m ns ih =>
    obtain ⟨first, rest⟩ := numbered
    rw [messageBytes_cons, List.length_append] at fits
    obtain ⟨s₁, moved, held₁, length⟩ := held.appendMessage first (readable m List.mem_cons_self) (by omega)
    have count : (ms ++ [m]).length = ms.length + 1 := List.length_append
    obtain ⟨s₂, moved₂, held₂⟩ := ih held₁ (count ▸ rest) (fun k member => readable k (List.mem_cons_of_mem _ member))
      (by omega)
    refine ⟨s₂, ?_, by rwa [List.append_assoc] at held₂⟩
    rw [length, Int.natCast_add] at moved₂
    rw [Segment.appendMessages, moved]
    exact moved₂

theorem read (held : s.HoldsMessages ms) {o : Nat} {maxBytes : Int} (inside : o < ms.length)
    (large : (messageBytes ms).length ≤ maxBytes) : s.read o maxBytes = .ok (ms.drop o) := by
  have start : ∃ k ≤ o, s.offsetIndex.lookup o = (messageBytes (ms.take k)).length := by
    rcases s.offsetIndex.lookup_below o with zero | ⟨i, below, low, found⟩
    · exact ⟨0, Nat.zero_le _, zero⟩
    · obtain ⟨k, _, offset, position⟩ := held.entries i below
      have short := wrapSigned_le 64 o
      rw [OffsetIndex.relativeOffset, held.indexBase, sub_zero] at low
      exact ⟨k, by omega, found.trans position⟩
  obtain ⟨k, low, position⟩ := start
  have split : messageBytes ms = messageBytes (ms.take k) ++ messageBytes (ms.drop k) := by
    rw [← messageBytes_append, List.take_append_drop]
  have shorter := congrArg List.length split
  rw [List.length_append] at shorter
  have rest : s.logFile.drop (s.offsetIndex.lookup o) = messageBytes (ms.drop k) := by
    rw [held.file, position, split, List.drop_left]
  have numbered : Numbered k (ms.drop k) := by
    have cut := held.numbered
    rw [← List.take_append_drop k ms, numbered_append, Nat.zero_add, List.length_take,
      Nat.min_eq_left (by omega)] at cut
    exact cut.2
  have readable : ∀ m ∈ ms.drop k, m.Readable := fun m member => held.readable m (List.mem_of_mem_drop member)
  have enough : (ms.drop k).length < s.fuel := by
    have count := length_le_messageBytes ms
    rw [List.length_drop, Segment.fuel, held.file]
    omega
  have loop : Segment.readMessages o maxBytes s.fuel (messageBytes (ms.drop k)) ([], 0) = _ :=
    readMessages_all readable enough [] (by omega)
  rw [Segment.read, held.based, if_neg (by omega), rest, loop, List.nil_append, numbered.filter low, List.drop_drop,
    show k + (o - k) = o by omega]

end Segment.HoldsMessages

/-! ### A log of messages -/

structure CommitLog.HoldsMessages (c : CommitLog) (ms : List Message) : Prop where
  opened : c.isClosed = false
  single : c.sealedSegments = []
  active : c.activeSegment.HoldsMessages ms
  next : c.nextOffset = ms.length

theorem newSegment_holdsMessages (config : CommitLogConfig) : (newSegment config (freshFiles 0)).HoldsMessages [] where
  based := rfl
  file := rfl
  small := Nat.zero_le _
  indexBase := rfl
  mapped := OffsetIndex.newOffsetIndex_mapped (.inl rfl) 0
  entries := fun i below => absurd below (Nat.not_lt_zero i)
  numbered := trivial
  readable := fun _ member => absurd member List.not_mem_nil

theorem newCommitLog_holdsMessages (config : CommitLogConfig) : (newCommitLog config []).HoldsMessages [] where
  opened := rfl
  single := rfl
  active := newSegment_holdsMessages config
  next := rfl

theorem mem_assignOffsets {nextOffset : Int} {messages : List (Draft × Int64)}
    (member : m ∈ assignOffsets nextOffset messages) : ∃ d ∈ messages, m.headers = d.1.headers := by
  induction messages generalizing nextOffset with
  | nil => cases member
  | cons first rest ih =>
    rcases List.mem_cons.mp member with rfl | later
    · exact ⟨first, List.mem_cons_self, rfl⟩
    · obtain ⟨d, inside, same⟩ := ih later
      exact ⟨d, List.mem_cons_of_mem _ inside, same⟩

/-- No header value is empty. -/
def LogAction.Valued : LogAction → Prop
  | .append messages => ∀ d ∈ messages, ∀ h ∈ d.1.headers.entries, h.2 ≠ []
  | .reopen => True

/-- The segment is not rolled, positions in the file stay below `2 ^ 32`, and only an empty log is opened again. -/
def Steady (r : Recorded) : LogAction → Prop
  | .append messages => r.log.activeSegment.isFull = false ∧
      r.log.activeSegment.logFile.length + (messageBytes (assignOffsets r.log.nextOffset messages)).length ≤ 2 ^ 32
  | .reopen => r.taken = []

instance (a : LogAction) : Decidable a.Valued :=
  match a with
  | .append messages => inferInstanceAs (Decidable (∀ d ∈ messages, ∀ h ∈ d.1.headers.entries, h.2 ≠ []))
  | .reopen => inferInstanceAs (Decidable True)

instance (r : Recorded) (a : LogAction) : Decidable (Steady r a) :=
  match a with
  | .append _ => inferInstanceAs (Decidable (_ ∧ _))
  | .reopen => inferInstanceAs (Decidable (r.taken = []))

namespace CommitLog.HoldsMessages

variable {c : CommitLog} {ms : List Message}

theorem append (held : c.HoldsMessages ms) {messages : List (Draft × Int64)} (room : c.activeSegment.isFull = false)
    (fits : c.activeSegment.logFile.length + (messageBytes (assignOffsets c.nextOffset messages)).length ≤ 2 ^ 32)
    (valued : ∀ d ∈ messages, ∀ h ∈ d.1.headers.entries, h.2 ≠ []) :
    ∃ c', c.append messages = (c', .ok c.nextOffset) ∧
      c'.HoldsMessages (ms ++ assignOffsets c.nextOffset messages) := by
  have count := length_le_messageBytes ms
  have count' := length_le_messageBytes (assignOffsets c.nextOffset messages)
  have size := held.active.small
  rw [length_assignOffsets] at count'
  rw [← held.active.file] at count
  have numbered : Numbered ms.length (assignOffsets c.nextOffset messages) := by
    rw [held.next]
    exact numbered_assignOffsets messages (by omega)
  have readable : ∀ m ∈ assignOffsets c.nextOffset messages, m.Readable := by
    intro m member
    obtain ⟨d, inside, same⟩ := mem_assignOffsets member
    have part := length_le_of_mem member
    rw [length_serializeMessage] at part
    refine ⟨by omega, fun h last => ?_⟩
    rw [same] at last
    exact valued d inside h (List.mem_of_getLast? last)
  obtain ⟨active, moved, holds⟩ := held.active.appendMessages numbered readable fits
  unfold CommitLog.append Segment.append
  rw [held.opened, if_neg Bool.false_ne_true, room, if_neg Bool.false_ne_true]
  dsimp only
  rw [moved]
  refine ⟨_, rfl, held.opened, held.single, holds, ?_⟩
  rw [List.length_append, length_assignOffsets, held.next, Int.natCast_add]

theorem read [Memory] (held : c.HoldsMessages ms) {o : Nat} {maxBytes : Int} (inside : o < ms.length)
    (large : (messageBytes ms).length ≤ maxBytes) (fits : allocatable maxBytes) :
    c.read o maxBytes = .ok (ms.drop o) := by
  have segments : c.segments = [c.activeSegment] := by rw [CommitLog.segments, held.single, List.nil_append]
  have found : c.findSegmentByOffset o = (0 : Nat) := by
    apply findSegmentByOffset_located
    · rw [segments]
      rfl
    · intro j s member
      obtain ⟨rfl, rfl⟩ : j = 0 ∧ c.activeSegment = s := by simpa [segments, List.getElem?_singleton] using member
      rw [held.active.based]
      omega
  have positive : 0 < maxBytes := by
    have count := length_le_messageBytes ms
    omega
  have only := held.active.read inside large
  unfold CommitLog.read
  rw [held.opened, if_neg Bool.false_ne_true]
  dsimp only
  rw [found, if_neg (by omega), if_neg (not_not.mpr fits), segments]
  simp only [Int.toNat_natCast, List.drop_zero, List.map_nil, CommitLog.readSegments, Int.sub_zero,
    if_pos positive, only, List.nil_append]

end CommitLog.HoldsMessages

/-- The offsets are consecutive, the newest one is that of the last message, and a read with enough room returns the
messages from its offset on. -/
structure Recorded.Kept [Memory] (r : Recorded) : Prop where
  consecutive : ∀ (i : Nat) (m : Message), r.taken[i]? = some m → m.offset.toInt = i
  newest : r.log.newestOffset = r.taken.length - 1
  read : ∀ o < r.taken.length, ∀ maxBytes : Int, (messageBytes r.taken).length ≤ maxBytes → allocatable maxBytes →
    r.log.read o maxBytes = .ok (r.taken.drop o)

theorem CommitLog.HoldsMessages.kept [Memory] {r : Recorded} (held : r.log.HoldsMessages r.taken) : r.Kept where
  consecutive := by
    intro i m found
    rw [held.active.numbered.getElem? found, Int.natCast_zero, Int.zero_add]
  newest := by rw [CommitLog.newestOffset, held.next]
  read := fun _ inside _ large fits => held.read inside large fits

section Runs

variable (config : CommitLogConfig) {r : Recorded}

theorem Recorded.step_append (held : r.log.HoldsMessages r.taken) {messages : List (Draft × Int64)}
    (valued : (LogAction.append messages).Valued) (steady : Steady r (.append messages)) :
    ∃ r', Recorded.step config (.append messages) r = some r' ∧ r'.log.HoldsMessages r'.taken := by
  obtain ⟨log, moved, holds⟩ := held.append steady.1 steady.2 valued
  refine ⟨⟨log, r.taken ++ assignOffsets r.log.nextOffset messages⟩, ?_, holds⟩
  rw [Recorded.step, moved]

theorem Recorded.step_reopen (held : r.log.HoldsMessages r.taken) (steady : Steady r .reopen) :
    ∃ r', Recorded.step config .reopen r = some r' ∧ r'.log.HoldsMessages r'.taken := by
  have nothing : r.taken = [] := steady
  rw [nothing] at held
  have unindexed : r.log.activeSegment.offsetIndex.entryCount = 0 := by
    by_contra some
    obtain ⟨k, below, _⟩ := held.active.entries 0 (Nat.pos_of_ne_zero some)
    exact Nat.not_lt_zero k below
  have closed : r.log.close = [⟨0, [], ⟨r.log.activeSegment.offsetIndex.mmap, 0⟩⟩] := by
    rw [CommitLog.close, CommitLog.segments, held.single, List.nil_append, List.map_singleton, Segment.close,
      OffsetIndex.close, held.active.based, held.active.file, unindexed, Nat.zero_mul, messageBytes_nil]
  refine ⟨⟨newCommitLog config r.log.close, r.taken⟩, rfl, ?_⟩
  rw [closed, nothing]
  exact newCommitLog_holdsMessages config

theorem Recorded.step_steady (held : r.log.HoldsMessages r.taken) {a : LogAction} (valued : a.Valued)
    (steady : Steady r a) : ∃ r', Recorded.step config a r = some r' ∧ r'.log.HoldsMessages r'.taken := by
  cases a with
  | append messages => exact Recorded.step_append config held valued steady
  | reopen => exact Recorded.step_reopen config held steady

/-- In every run that is steady no append fails and the log keeps the messages. -/
theorem messages_kept [Memory] (r : Recorded)
    (reached : (messageMachine config).Reached (fun r a => a.Valued ∧ Steady r a) r) :
    r.Kept ∧ ∀ a : LogAction, a.Valued → Steady r a → ∃ r', (messageMachine config).step a r = some r' := by
  have held : r.log.HoldsMessages r.taken := by
    refine Machine.reached_invariant (fun r => r.log.HoldsMessages r.taken) ?_ ?_ reached
    · rintro _ rfl
      exact newCommitLog_holdsMessages config
    · intro r a r' held allowed moves
      obtain ⟨after, moved, holds⟩ := Recorded.step_steady config held allowed.1 allowed.2
      obtain rfl := Option.some.inj (moved.symm.trans moves)
      exact holds
  refine ⟨held.kept, fun a valued steady => ?_⟩
  obtain ⟨r', moved, _⟩ := Recorded.step_steady config held valued steady
  exact ⟨r', moved⟩

end Runs

def letter (b : UInt8) : Draft × Int64 := (⟨some 1000000007, [b], [b], .empty⟩, 0)

theorem messages_kept_three : ∃ r, (messageMachine ⟨1024, 4096⟩).Reached (fun r a => a.Valued ∧ Steady r a) r ∧
    r.taken.length = 3 ∧ r.Kept := by
  obtain ⟨r, reached, three⟩ := Machine.exec_reaches (messageMachine ⟨1024, 4096⟩) (fun r a => a.Valued ∧ Steady r a)
    (fun r a => decide (a.Valued ∧ Steady r a)) (fun _ _ => of_decide_eq_true)
    [.reopen, .append [letter 65, letter 66], .append [letter 67]] (fun r => decide (r.taken.length = 3)) rfl
    (by decide +kernel)
  exact ⟨r, reached, of_decide_eq_true three, (messages_kept _ r reached).1⟩

/-- The first bytes of a message taken for a batch can give the right offset by accident. -/
example : ((messageMachine ⟨1024, 4096⟩).exec (fun _ _ => true)
    [.append [(⟨some 10, [], List.replicate 20 0, .empty⟩, 0)], .reopen] ⟨newCommitLog ⟨1024, 4096⟩ [], []⟩).map
      (fun r => r.log.newestOffset) = some 0 := by
  decide +kernel

/-- With `SegmentMaxBytes` 1024: after `Close` and opening again the newest offset is not 0. With `SegmentMaxBytes` 1:
the second message goes to a new segment, and a read of everything misses it. -/
theorem rolled_or_reopened_lost :
    (((messageMachine ⟨1024, 4096⟩).exec (fun _ _ => true) [.append [letter 65], .reopen]
        ⟨newCommitLog ⟨1024, 4096⟩ [], []⟩).map fun r => (r.taken.length, r.log.newestOffset)) =
      some (1, 146461924101) ∧
    (((messageMachine ⟨1, 4096⟩).exec (fun _ _ => true) [.append [letter 65], .append [letter 66]]
        ⟨newCommitLog ⟨1, 4096⟩ [], []⟩).map fun r =>
          (r.taken.map (·.offset), (r.log.read 0 100000).toOption.map fun ms => ms.map (·.offset))) =
      some ([0, 1], some [0]) := by
  decide +kernel

end KafGo.Storage
