import KafGo.Coordinator.ProducerSnapshot
import KafGo.Lib.Ring
import KafGo.Storage.TornTail

/-!
# Recovering the producer state

A segment roll writes the deduplication state to a snapshot, and after a restart the state is the newest
snapshot at or below the active segment with the batches of the active segment recorded on top of it.
-/

namespace KafGo.Coordinator
open Lib Storage

def defaultRetainSnapshots : Nat := 2

structure ProducerStateManager where
  dir : SnapshotDir
  state : IdempotenceState
  retainSnapshots : Nat

def newProducerStateManager (dir : SnapshotDir) (state : IdempotenceState) : ProducerStateManager :=
  ⟨dir, state, defaultRetainSnapshots⟩

/-- `Snapshot` visits the entries of the map in some order of its keys. -/
def IdempotenceState.snapshot (s : IdempotenceState) (order : List Int) : List ProducerSnapshotEntry :=
  order.filterMap fun pid =>
    if int64 : -2 ^ 63 ≤ pid ∧ pid < 2 ^ 63 then (s.producers pid).map fun log => ⟨pid, log, int64⟩ else none

def IdempotenceState.restore (entries : List ProducerSnapshotEntry) : IdempotenceState :=
  ⟨entries.foldl (fun producers e => Function.update producers e.producerId (some e.log)) fun _ => none⟩

/-- The sequence numbers and the place of a batch, as `Recover` takes them from its header. -/
structure SentBatch where
  epoch : Int
  firstSeq : Int
  lastSeq : Int
  baseOffset : Int
  deriving DecidableEq, Repr

def sentOf (h : BatchHeader) : SentBatch :=
  ⟨h.producerEpoch, h.baseSequence, wrapSigned 32 (h.baseSequence + h.lastOffsetDelta), h.baseOffset⟩

/-- The callback of `Recover`. `clock` is the time at which it reaches a batch. -/
def recordHeader (clock : Int → Int) (s : IdempotenceState) (h : BatchHeader) : IdempotenceState :=
  if h.producerId < 0 then s
  else s.record (clock h.baseOffset) h.producerId h.producerEpoch h.baseSequence (sentOf h).lastSeq h.baseOffset

namespace ProducerStateManager

def pruneOldSnapshots (m : ProducerStateManager) (currentBase : Int) : ProducerStateManager :=
  let bases := listSnapshotFiles m.dir
  if bases.length ≤ m.retainSnapshots then m
  else
    let keep := max 1 m.retainSnapshots
    { m with
      dir := (bases.take (bases.length - keep)).foldl
        (fun dir base => if base ≥ currentBase then dir else deleteProducerSnapshot dir base) m.dir }

/-- The second half of `OnSegmentRoll`, with the entries that its `Snapshot` call returned. -/
def writeSnapshot (m : ProducerStateManager) (newBase : Int) (entries : List ProducerSnapshotEntry) :
    ProducerStateManager :=
  { m with dir := writeProducerSnapshot m.dir newBase entries }.pruneOldSnapshots newBase

def recover (m : ProducerStateManager) (clock : Int → Int) (cl : CommitLog) :
    Except (Option Unit) ProducerStateManager :=
  let activeBase := cl.activeSegmentBaseOffset
  let (snapBase, entries) := loadLatestProducerSnapshot m.dir activeBase
  let state := match entries with
    | some entries => IdempotenceState.restore entries
    | none => m.state
  let scanFrom := if activeBase > snapBase then activeBase else snapBase
  (cl.walkBatchHeadersFrom scanFrom (fun s h => .ok (recordHeader clock s h)) state).map
    fun state => { m with state := state }

end ProducerStateManager

def sentBy (pid : Int) (fs : List StoredBatch) : List SentBatch :=
  (fs.filter fun f => decide (f.header.producerId = pid)).map fun f => sentOf f.header

theorem sentBy_append (pid : Int) (fs gs : List StoredBatch) :
    sentBy pid (fs ++ gs) = sentBy pid fs ++ sentBy pid gs := by
  simp [sentBy]

def SentBatch.slot (b : SentBatch) : ProducerRingSlot := ⟨b.firstSeq, b.lastSeq, b.baseOffset, -1⟩

def recordSent (clock : Int → Int) (entry : Option ProducerBatchLog) (b : SentBatch) : Option ProducerBatchLog :=
  some (IdempotenceState.recorded (entry.getD (newProducerBatchLog b.epoch)) (clock b.baseOffset) b.epoch b.firstSeq
    b.lastSeq b.baseOffset)

variable {pid : Int} {bs sent : List SentBatch} {s : IdempotenceState} {last : SentBatch} {dir : SnapshotDir}
  {order : List Int}

theorem recordHeaders_entry (clock : Int → Int) (idempotent : 0 ≤ pid) (fs : List StoredBatch) (s : IdempotenceState) :
    ((fs.map StoredBatch.header).foldl (recordHeader clock) s).producers pid =
      (sentBy pid fs).foldl (recordSent clock) (s.producers pid) := by
  induction fs generalizing s with
  | nil => rfl
  | cons f fs ih =>
    rw [List.map_cons, List.foldl_cons, ih]
    unfold sentBy
    by_cases own : f.header.producerId = pid
    · rw [List.filter_cons_of_pos (by simpa using own), List.map_cons, List.foldl_cons]
      congr 1
      subst own
      unfold recordHeader
      rw [if_neg (by omega)]
      exact Function.update_self _ _ _
    · rw [List.filter_cons_of_neg (by simpa using own)]
      congr 1
      unfold recordHeader
      split
      · rfl
      · exact s.record_other (Ne.symm own)

def blankSlot : ProducerRingSlot := ⟨-1, 0, 0, 0⟩

def ProducerBatchLog.slots (log : ProducerBatchLog) : List ProducerRingSlot := log.ring.toList.rotate log.ringHead

theorem mem_slots {log : ProducerBatchLog} {slot : ProducerRingSlot} :
    slot ∈ log.slots ↔ slot ∈ log.ring.toList := List.mem_rotate

theorem length_slots (log : ProducerBatchLog) : log.slots.length = idempotenceRingSize := by
  simp [ProducerBatchLog.slots]

theorem recorded_slots (log : ProducerBatchLog) (now epoch firstSeq lastSeq baseOff : Int) :
    (IdempotenceState.recorded log now epoch firstSeq lastSeq baseOff).slots =
      keepLast idempotenceRingSize (log.slots ++ [⟨firstSeq, lastSeq, baseOff, -1⟩]) := by
  have size : log.ring.toList.length = idempotenceRingSize := by simp
  have written := @rotate_set _ log.ring.toList log.ringHead (by rw [size]; exact log.ringHead.isLt)
    ⟨firstSeq, lastSeq, baseOff, -1⟩
  rw [size] at written
  unfold ProducerBatchLog.slots IdempotenceState.recorded
  rw [← written]
  congr 1

theorem newProducerBatchLog_slots (epoch : Int) :
    (newProducerBatchLog epoch).slots = List.replicate idempotenceRingSize blankSlot := rfl

theorem mem_keepLast_blanks {n k : Nat} {slot : ProducerRingSlot} (nonneg : 0 ≤ slot.firstSeq) :
    slot ∈ keepLast n (List.replicate k blankSlot ++ bs.map SentBatch.slot) ↔
      slot ∈ (keepLast n bs).map SentBatch.slot := by
  rw [keepLast_append, List.mem_append, keepLast_map]
  refine ⟨fun member => member.elim (fun blank => ?_) id, Or.inr⟩
  have unused := List.eq_of_mem_replicate (mem_of_mem_keepLast blank)
  rw [unused] at nonneg
  exact absurd nonneg (by decide)

/-- Recording a run of batches: the ring keeps the last five of what it had and the run, and the last batch
sets the sequence and the epoch. -/
theorem recordSent_run (clock : Int → Int) (bs : List SentBatch) (log : ProducerBatchLog) :
    ∃ log', bs.foldl (recordSent clock) (some log) = some log' ∧
      log'.slots = keepLast idempotenceRingSize (log.slots ++ bs.map SentBatch.slot) ∧
      (bs = [] → log' = log) ∧ ∀ last, bs.getLast? = some last → log'.lastEpoch = last.epoch ∧
        log'.lastSeq = last.lastSeq := by
  induction bs using List.reverseRecOn with
  | nil =>
    refine ⟨log, rfl, ?_, fun _ => rfl, fun last none => by cases none⟩
    rw [List.map_nil, List.append_nil, keepLast_of_le (Nat.le_of_eq (length_slots log))]
  | append_singleton bs b ih =>
    obtain ⟨log', folded, slots, _, _⟩ := ih
    refine ⟨_, by rw [List.foldl_append, folded]; rfl, ?_, fun empty => by simp at empty, ?_⟩
    · rw [recorded_slots, Option.getD_some, slots, keepLast_keepLast_append, List.map_append, List.append_assoc]
      rfl
    · intro last found
      rw [List.getLast?_concat, Option.some.injEq] at found
      subst found
      exact ⟨rfl, rfl⟩

theorem recordSent_none (clock : Int → Int) (b : SentBatch) (bs : List SentBatch) :
    (b :: bs).foldl (recordSent clock) none = (b :: bs).foldl (recordSent clock)
      (some (newProducerBatchLog b.epoch)) := rfl

theorem ringOf_toList {slots : List ProducerRingSlot} (few : slots.length ≤ idempotenceRingSize) :
    (ringOf slots).toList = slots ++ List.replicate (idempotenceRingSize - slots.length) blankSlot := by
  apply List.ext_getElem
  · simp only [Vector.length_toList, List.length_append, List.length_replicate]
    omega
  · intro i inside inside'
    simp only [ringOf, Vector.getElem_toList, Vector.getElem_ofFn]
    rw [List.getD_eq_getElem?_getD, List.getElem_append]
    split
    · rename_i below
      rw [List.getElem?_eq_getElem below]
      rfl
    · rename_i beyond
      rw [List.getElem?_eq_none (by omega), List.getElem_replicate]
      rfl

theorem reread_slots (log : ProducerBatchLog) : log.reread.slots =
    List.replicate (idempotenceRingSize - log.usedSlots.length) blankSlot ++
      log.usedSlots.map ProducerRingSlot.reread := by
  have few := length_usedSlots log
  unfold ProducerBatchLog.slots
  change (ringOf _).toList.rotate (log.usedSlots.length % idempotenceRingSize) = _
  rw [ringOf_toList (by rw [List.length_map]; exact few), List.length_map]
  rcases Nat.lt_or_ge log.usedSlots.length idempotenceRingSize with room | full
  · rw [Nat.mod_eq_of_lt room, ← List.length_map ProducerRingSlot.reread, List.rotate_append_length_eq]
  · rw [Nat.le_antisymm few full, Nat.mod_self, List.rotate_zero, Nat.sub_self, List.replicate_zero,
      List.append_nil, List.nil_append]

def inEpoch (last : SentBatch) (bs : List SentBatch) :
    List SentBatch := bs.filter fun b => decide (b.epoch = last.epoch)

/-- The last five batches of the current epoch, which is that of the last batch. -/
def lastFive (sent : List SentBatch) : List SentBatch :=
  match sent.getLast? with
  | none => []
  | some last => keepLast idempotenceRingSize (inEpoch last sent)

def answer (sent : List SentBatch) (epoch firstSeq lastSeq : Int) : Verdict :=
  match sent.getLast? with
  | none => IdempotenceState.validateUnknown firstSeq
  | some last =>
    if epoch < last.epoch then .rejected errInvalidProducerEpoch
    else if epoch > last.epoch then
      if firstSeq ≠ 0 then .rejected errOutOfOrderSequenceNumber else .fresh
    else if Follows last.lastSeq firstSeq then .fresh
    else if firstSeq > wrapSigned 32 (last.lastSeq + 1) then .rejected errOutOfOrderSequenceNumber
    else match (lastFive sent).find? (fun b => decide (b.firstSeq = firstSeq ∧ b.lastSeq = lastSeq)) with
      | some b => .duplicate b.baseOffset
      | none => .rejected errDuplicateSequenceNumber

/-- Sequence numbers that tell the last five batches apart. They do so unless they wrap around within five
batches. -/
structure Distinct (sent : List SentBatch) : Prop where
  nonneg : ∀ b ∈ lastFive sent, 0 ≤ b.firstSeq
  apart : ∀ a ∈ lastFive sent, ∀ b ∈ lastFive sent, a.firstSeq = b.firstSeq → a.lastSeq = b.lastSeq →
    a.baseOffset = b.baseOffset

/-- The entry of a producer that has sent the batches `sent`. -/
def Recalls (entry : Option ProducerBatchLog) (sent : List SentBatch) : Prop :=
  match sent.getLast? with
  | none => entry = none
  | some last => ∃ log, entry = some log ∧ log.lastEpoch = last.epoch ∧ log.lastSeq = last.lastSeq ∧
      ∀ slot, 0 ≤ slot.firstSeq → (slot ∈ log.ring.toList ↔ slot ∈ (lastFive sent).map SentBatch.slot)

theorem lookupRing_recalls {log : ProducerBatchLog} (distinct : Distinct sent)
    (slots : ∀ slot, 0 ≤ slot.firstSeq → (slot ∈ log.ring.toList ↔ slot ∈ (lastFive sent).map SentBatch.slot))
    (firstSeq lastSeq : Int) :
    lookupRing log firstSeq lastSeq =
      ((lastFive sent).find? (fun b => decide (b.firstSeq = firstSeq ∧ b.lastSeq = lastSeq))).map
        SentBatch.baseOffset := by
  unfold lookupRing
  cases found : log.ring.toList.find? (fun slot => slot.holds firstSeq lastSeq) with
  | none =>
    have absent := List.find?_eq_none.mp found
    have unsent : (lastFive sent).find? (fun b => decide (b.firstSeq = firstSeq ∧ b.lastSeq = lastSeq)) = none := by
      apply List.find?_eq_none.mpr
      intro b member same
      rw [decide_eq_true_eq] at same
      have nonneg := distinct.nonneg b member
      have kept := (slots b.slot nonneg).mpr (List.mem_map_of_mem member)
      apply absent b.slot kept
      exact decide_eq_true ⟨nonneg, same⟩
    rw [unsent]
    rfl
  | some slot =>
    have holds := List.find?_some found
    rw [ProducerRingSlot.holds, decide_eq_true_eq] at holds
    obtain ⟨nonneg, first, last⟩ := holds
    obtain ⟨b, member, rfl⟩ := List.mem_map.mp ((slots slot nonneg).mp (List.mem_of_find?_eq_some found))
    cases other : (lastFive sent).find? (fun b => decide (b.firstSeq = firstSeq ∧ b.lastSeq = lastSeq)) with
    | none =>
      have absent := List.find?_eq_none.mp other b member
      exact absurd (decide_eq_true ⟨first, last⟩) absent
    | some b' =>
      have same := List.find?_some other
      rw [decide_eq_true_eq] at same
      have base := distinct.apart b member b' (List.mem_of_find?_eq_some other) (first.trans same.1.symm)
        (last.trans same.2.symm)
      exact congrArg some base

theorem validate_recalls (distinct : Distinct sent) (recalls : Recalls (s.producers pid) sent) {now : Int}
    (current : ∀ log, s.producers pid = some log → IdempotenceState.expired log now = false)
    (epoch firstSeq lastSeq : Int) :
    (s.validate now pid epoch firstSeq lastSeq).2 = answer sent epoch firstSeq lastSeq := by
  unfold Recalls at recalls
  unfold answer IdempotenceState.validate
  cases sends : sent.getLast? with
  | none =>
    rw [sends] at recalls
    rw [recalls]
  | some last =>
    rw [sends] at recalls
    obtain ⟨log, entry, lastEpoch, lastSeqs, slots⟩ := recalls
    rw [entry]
    dsimp only
    rw [current log entry, if_neg (by decide), lastEpoch, lastSeqs, lookupRing_recalls distinct slots]
    split
    · rfl
    · split
      · split <;> rfl
      · split
        · rfl
        · split
          · rfl
          · cases (lastFive sent).find? (fun b => decide (b.firstSeq = firstSeq ∧ b.lastSeq = lastSeq)) <;> rfl

/-- The entry as it comes out of a snapshot that was taken after the batches `bs` of an epoch. -/
def Loaded (entry : Option ProducerBatchLog) (bs : List SentBatch) : Prop :=
  match bs.getLast? with
  | none => entry = none
  | some last => ∃ log, entry = some log ∧ log.lastEpoch = last.epoch ∧ log.lastSeq = last.lastSeq ∧
      ∃ blanks, log.slots = List.replicate blanks blankSlot ++ (keepLast idempotenceRingSize bs).map SentBatch.slot

theorem inEpoch_append (last : SentBatch) (xs ys : List SentBatch) :
    inEpoch last (xs ++ ys) = inEpoch last xs ++ inEpoch last ys := by
  unfold inEpoch
  rw [List.filter_append]

theorem inEpoch_last (sends : sent.getLast? = some last) :
    (inEpoch last sent).getLast? = some last := by
  obtain ⟨before, rfl⟩ := List.getLast?_eq_some_iff.mp sends
  unfold inEpoch
  rw [List.filter_append, List.filter_cons_of_pos (by simp), List.filter_nil, List.getLast?_concat]

theorem recalls_full (clock : Int → Int) (entry : Option ProducerBatchLog) {old new : List SentBatch}
    (sends : (sent ++ (old ++ new)).getLast? = some last) (many : idempotenceRingSize ≤ new.length)
    (same : ∀ b ∈ new, b.epoch = last.epoch) :
    Recalls ((old ++ new).foldl (recordSent clock) entry) (sent ++ (old ++ new)) := by
  have nonempty : old ++ new ≠ [] := by
    intro empty
    have none := (List.append_eq_nil_iff.mp empty).2
    rw [none] at many
    exact absurd many (by decide)
  obtain ⟨log, started⟩ : ∃ log, (old ++ new).foldl (recordSent clock) entry =
      (old ++ new).foldl (recordSent clock) (some log) := by
    cases entry with
    | some log => exact ⟨log, rfl⟩
    | none =>
      obtain ⟨b, rest, parts⟩ := List.exists_cons_of_ne_nil nonempty
      rw [parts]
      exact ⟨_, recordSent_none clock b rest⟩
  obtain ⟨log', folded, slots, _, lasts⟩ := recordSent_run clock (old ++ new) log
  have kept : lastFive (sent ++ (old ++ new)) = keepLast idempotenceRingSize new := by
    unfold lastFive
    rw [sends]
    dsimp only
    have current : inEpoch last new = new := List.filter_eq_self.mpr fun b member => decide_eq_true (same b member)
    rw [← List.append_assoc, inEpoch_append, current, keepLast_suffix _ many]
  have ends : (old ++ new).getLast? = some last := by
    rwa [List.getLast?_append_of_ne_nil _ nonempty] at sends
  unfold Recalls
  rw [sends, started, folded]
  refine ⟨log', rfl, (lasts last ends).1, (lasts last ends).2, fun slot _ => ?_⟩
  rw [← mem_slots, slots, List.map_append, ← List.append_assoc, keepLast_suffix _ (by rw [List.length_map]; exact many),
    kept, keepLast_map]

/-- On top of what a snapshot held of the current epoch, the batches of the active segment are recorded, those
again that the snapshot already had. -/
theorem recalls_loaded (clock : Int → Int) {entry : Option ProducerBatchLog} {earlier active : List SentBatch}
    {j : Nat} (sends : (earlier ++ active).getLast? = some last) (same : ∀ b ∈ active, b.epoch = last.epoch)
    (loaded : Loaded entry (inEpoch last earlier ++ active.take j))
    (spare : j = 0 ∨ inEpoch last earlier = [] ∨ (inEpoch last earlier).length + j + active.length ≤
      idempotenceRingSize) :
    Recalls (active.foldl (recordSent clock) entry) (earlier ++ active) := by
  have current : inEpoch last active = active := List.filter_eq_self.mpr fun b member => decide_eq_true (same b member)
  have kept : lastFive (earlier ++ active) = keepLast idempotenceRingSize (inEpoch last earlier ++ active) := by
    unfold lastFive
    rw [sends]
    dsimp only
    rw [inEpoch_append, current]
  -- The entry the batches of the active segment are recorded on, and its slots.
  obtain ⟨log, blanks, started, slots, unchanged⟩ : ∃ log blanks,
      active.foldl (recordSent clock) entry = active.foldl (recordSent clock) (some log) ∧
      log.slots = List.replicate blanks blankSlot ++
        (keepLast idempotenceRingSize (inEpoch last earlier ++ active.take j)).map SentBatch.slot ∧
      (active = [] → log.lastEpoch = last.epoch ∧ log.lastSeq = last.lastSeq) := by
    unfold Loaded at loaded
    cases held : (inEpoch last earlier ++ active.take j).getLast? with
    | none =>
      rw [held] at loaded
      have none := List.getLast?_eq_none_iff.mp held
      cases active with
      | nil =>
        rw [List.append_nil] at sends
        have some := inEpoch_last sends
        rw [List.take_nil, List.append_nil] at none
        rw [none] at some
        cases some
      | cons b rest =>
        refine ⟨newProducerBatchLog b.epoch, idempotenceRingSize, ?_, ?_, fun empty => by cases empty⟩
        · rw [loaded]
          exact recordSent_none clock b rest
        · rw [none, newProducerBatchLog_slots]
          exact (List.append_nil _).symm
    | some recent =>
      rw [held] at loaded
      obtain ⟨log, rfl, lastEpoch, lastSeq, blanks, slots⟩ := loaded
      refine ⟨log, blanks, rfl, slots, fun empty => ?_⟩
      subst empty
      rw [List.append_nil] at sends
      rw [List.take_nil, List.append_nil, inEpoch_last sends, Option.some.injEq] at held
      rw [held]
      exact ⟨lastEpoch, lastSeq⟩
  obtain ⟨log', folded, slots', idle, lasts⟩ := recordSent_run clock active log
  unfold Recalls
  rw [sends, started, folded]
  refine ⟨log', rfl, ?_⟩
  have ends : log'.lastEpoch = last.epoch ∧ log'.lastSeq = last.lastSeq := by
    cases active with
    | nil =>
      rw [idle rfl]
      exact unchanged rfl
    | cons b rest =>
      rw [List.getLast?_append_of_ne_nil _ (by simp)] at sends
      exact lasts last sends
  refine ⟨ends.1, ends.2, fun slot nonneg => ?_⟩
  have again : slot ∈
    (keepLast idempotenceRingSize (inEpoch last earlier ++ active.take j ++ active)).map SentBatch.slot ↔
      slot ∈ (keepLast idempotenceRingSize (inEpoch last earlier ++ active)).map SentBatch.slot := by
    simp only [List.mem_map, mem_keepLast_again spare]
  rw [← mem_slots, slots', slots, kept, ← again, List.append_assoc, ← List.map_append, mem_keepLast_blanks nonneg,
    keepLast_keepLast_append]

structure SentBatch.Fits (b : SentBatch) : Prop where
  epoch : -2 ^ 15 ≤ b.epoch ∧ b.epoch < 2 ^ 15
  firstSeq : -2 ^ 31 ≤ b.firstSeq ∧ b.firstSeq < 2 ^ 31
  lastSeq : -2 ^ 31 ≤ b.lastSeq ∧ b.lastSeq < 2 ^ 31
  baseOffset : -2 ^ 63 ≤ b.baseOffset ∧ b.baseOffset < 2 ^ 63

theorem sentBy_fits {fs : List StoredBatch} {b : SentBatch} (member : b ∈ sentBy pid fs) : b.Fits := by
  obtain ⟨f, _, rfl⟩ := List.mem_map.mp member
  exact ⟨int16At_fits _ _, int32At_fits _ _, signed_fits (by decide) (unsigned_lt _ _), int64At_fits _ _⟩

theorem SentBatch.Fits.reread {b : SentBatch} (fits : b.Fits) : b.slot.reread = b.slot := by
  have firstSeq : wrapSigned 32 b.firstSeq = b.firstSeq := wrapSigned_fits (by decide) fits.firstSeq.1 fits.firstSeq.2
  have lastSeq : wrapSigned 32 b.lastSeq = b.lastSeq := wrapSigned_fits (by decide) fits.lastSeq.1 fits.lastSeq.2
  have baseOffset : wrapSigned 64 b.baseOffset = b.baseOffset :=
    wrapSigned_fits (by decide) fits.baseOffset.1 fits.baseOffset.2
  unfold ProducerRingSlot.reread SentBatch.slot
  dsimp only
  rw [firstSeq, lastSeq, baseOffset]
  rfl

/-- The log has the last five of the batches `bs` in its ring, in array order, and ends with the last one. -/
def ProducerBatchLog.Lists (log : ProducerBatchLog) (bs : List SentBatch) : Prop :=
  log.usedSlots = (keepLast idempotenceRingSize bs).map SentBatch.slot ∧
    ∃ last, bs.getLast? = some last ∧ log.lastEpoch = last.epoch ∧ log.lastSeq = last.lastSeq

/-- The entries have one for the producer, which lists the batches `bs`, or none if there are no batches. -/
inductive EntryOf (entries : List ProducerSnapshotEntry) (pid : Int) : List SentBatch → Prop where
  | absent (without : ∀ e ∈ entries, e.producerId ≠ pid) : EntryOf entries pid []
  | present {bs : List SentBatch} {e : ProducerSnapshotEntry} (member : e ∈ entries) (own : e.producerId = pid)
      (only : ∀ e' ∈ entries, e'.producerId = pid → e'.log = e.log) (lists : e.log.Lists bs) : EntryOf entries pid bs

/-- The directory has no snapshot up to `maxBase`, or the newest one was written with such an entry. -/
inductive SnapshotOf (dir : SnapshotDir) (maxBase pid : Int) : List SentBatch → Prop where
  | none (above : ∀ f ∈ dir, maxBase < f.base) : SnapshotOf dir maxBase pid []
  | file {bs : List SentBatch} {base : Int} {entries : List ProducerSnapshotEntry}
      (newest : Newest dir maxBase base (snapshotBytes base entries)) (few : entries.length < 2 ^ 32)
      (int64 : -2 ^ 63 ≤ base ∧ base < 2 ^ 63) (entry : EntryOf entries pid bs) : SnapshotOf dir maxBase pid bs

theorem restore_producers (entries : List ProducerSnapshotEntry) (pid : Int) :
    ((∀ e ∈ entries, e.producerId ≠ pid) ∧ (IdempotenceState.restore entries).producers pid = none) ∨
      ∃ e ∈ entries, e.producerId = pid ∧ (IdempotenceState.restore entries).producers pid = some e.log := by
  unfold IdempotenceState.restore
  induction entries using List.reverseRecOn with
  | nil => exact Or.inl ⟨by simp, rfl⟩
  | append_singleton entries e ih =>
    rw [List.foldl_append, List.foldl_cons, List.foldl_nil]
    by_cases own : e.producerId = pid
    · refine Or.inr ⟨e, by simp, own, ?_⟩
      rw [own]
      exact Function.update_self _ _ _
    · dsimp only at ih ⊢
      rw [Function.update_of_ne (Ne.symm own)]
      rcases ih with ⟨without, none⟩ | ⟨e', member, own', found⟩
      · refine Or.inl ⟨fun e' member => ?_, none⟩
        rcases List.mem_append.mp member with earlier | here
        · exact without e' earlier
        · rwa [List.mem_singleton.mp here]
      · exact Or.inr ⟨e', List.mem_append_left _ member, own', found⟩

def loadedState (dir : SnapshotDir) (maxBase : Int) (state : IdempotenceState) : IdempotenceState :=
  match (loadLatestProducerSnapshot dir maxBase).2 with
  | some entries => IdempotenceState.restore entries
  | none => state

theorem loadedState_loaded {maxBase : Int} (snapshot : SnapshotOf dir maxBase pid bs) (fits : ∀ b ∈ bs, b.Fits) :
    Loaded ((loadedState dir maxBase IdempotenceState.empty).producers pid) bs := by
  unfold loadedState
  cases snapshot with
  | none above =>
    rw [loadLatest_none above]
    rfl
  | @file bs base entries newest few int64 entry =>
    rw [loadLatest_newest newest (decodeSnapshot_bytes int64.1 int64.2 few)]
    have restored := restore_producers (entries.map ProducerSnapshotEntry.reread) pid
    dsimp only
    cases entry with
    | absent without =>
      rcases restored with ⟨_, none⟩ | ⟨e, member, own, _⟩
      · rw [none]
        rfl
      · obtain ⟨e', member', rfl⟩ := List.mem_map.mp member
        exact absurd own (without e' member')
    | @present bs e member own only lists =>
      have entry : (IdempotenceState.restore (entries.map ProducerSnapshotEntry.reread)).producers pid =
          some e.log.reread := by
        rcases restored with ⟨without, _⟩ | ⟨e', member', own', found⟩
        · exact absurd own (without e.reread (List.mem_map_of_mem member))
        · obtain ⟨e'', member'', rfl⟩ := List.mem_map.mp member'
          rw [found]
          exact congrArg (fun log => some (ProducerBatchLog.reread log)) (only e'' member'' own')
      obtain ⟨used, last, ends, lastEpoch, lastSeq⟩ := lists
      have whole := fits last (List.mem_of_getLast? ends)
      have sameEpoch : wrapSigned 16 last.epoch = last.epoch := wrapSigned_fits (by decide) whole.epoch.1 whole.epoch.2
      have sameSeq : wrapSigned 32 last.lastSeq = last.lastSeq :=
        wrapSigned_fits (by decide) whole.lastSeq.1 whole.lastSeq.2
      unfold Loaded
      rw [ends, entry]
      refine ⟨_, rfl, ?_, ?_, idempotenceRingSize - e.log.usedSlots.length, ?_⟩
      · change wrapSigned 16 e.log.lastEpoch = _
        rw [lastEpoch, sameEpoch]
      · change wrapSigned 32 e.log.lastSeq = _
        rw [lastSeq, sameSeq]
      · rw [reread_slots, used, List.map_map]
        congr 1
        apply List.map_congr_left
        intro b inside
        exact (fits b (mem_of_mem_keepLast inside)).reread

theorem snapshot_mem {e : ProducerSnapshotEntry} :
    e ∈ s.snapshot order ↔ e.producerId ∈ order ∧ s.producers e.producerId = some e.log := by
  unfold IdempotenceState.snapshot
  rw [List.mem_filterMap]
  constructor
  · rintro ⟨pid, member, made⟩
    split at made
    · obtain ⟨log, entry, rfl⟩ := Option.map_eq_some_iff.mp made
      exact ⟨member, entry⟩
    · cases made
  · rintro ⟨member, entry⟩
    exact ⟨e.producerId, member, by rw [dif_pos e.int64, entry]; rfl⟩

theorem snapshot_entryOf (visits : ∀ pid, s.producers pid ≠ none → pid ∈ order) (int64 : -2 ^ 63 ≤ pid ∧ pid < 2 ^ 63)
    (entry : bs = [] ∧ s.producers pid = none ∨ ∃ log, s.producers pid = some log ∧ log.Lists bs) :
    EntryOf (s.snapshot order) pid bs := by
  rcases entry with ⟨rfl, none⟩ | ⟨log, found, lists⟩
  · apply EntryOf.absent
    intro e member own
    have held := (snapshot_mem.mp member).2
    rw [own, none] at held
    cases held
  · have visited : pid ∈ order := visits pid (by rw [found]; nofun)
    refine EntryOf.present (e := ⟨pid, log, int64⟩) (snapshot_mem.mpr ⟨visited, found⟩) rfl ?_ lists
    intro e member own
    have held := (snapshot_mem.mp member).2
    rw [own, found] at held
    exact (Option.some.inj held).symm

theorem prune_keeps {bases : List Int} {currentBase : Int} {f : SnapshotFile} (current : currentBase ≤ f.base) :
    f ∈ bases.foldl (fun dir base => if base ≥ currentBase then dir else deleteProducerSnapshot dir base) dir ↔
      f ∈ dir := by
  induction bases generalizing dir with
  | nil => rfl
  | cons base bases ih =>
    rw [List.foldl_cons, ih]
    split
    · rfl
    · rw [deleteProducerSnapshot, List.mem_filter, decide_eq_true_eq]
      exact ⟨And.left, fun member => ⟨member, by omega⟩⟩

theorem prune_mem {bases : List Int} {currentBase : Int} {f : SnapshotFile}
    (member : f ∈
      bases.foldl (fun dir base => if base ≥ currentBase then dir else deleteProducerSnapshot dir base) dir) :
    f ∈ dir := by
  induction bases generalizing dir with
  | nil => exact member
  | cons base bases ih =>
    have kept := ih member
    dsimp only at kept
    split at kept
    · exact kept
    · exact (List.mem_filter.mp kept).1

theorem writeSnapshot_newest (m : ProducerStateManager) {newBase : Int} (entries : List ProducerSnapshotEntry)
    (latest : ∀ f ∈ m.dir, f.base ≤ newBase) :
    Newest (m.writeSnapshot newBase entries).dir newBase newBase (snapshotBytes newBase entries) := by
  have written : Newest (writeProducerSnapshot m.dir newBase entries) newBase newBase (snapshotBytes newBase entries) :=
    newest_written entries (Int.le_refl _) fun f member _ => latest f member
  have shrunk : ∀ f ∈ (m.writeSnapshot newBase entries).dir, f ∈ writeProducerSnapshot m.dir newBase entries := by
    intro f member
    unfold ProducerStateManager.writeSnapshot ProducerStateManager.pruneOldSnapshots at member
    dsimp only at member
    split at member
    · exact member
    · exact prune_mem member
  refine ⟨?_, written.below, fun f member => written.highest f (shrunk f member),
    fun f member => written.only f (shrunk f member)⟩
  unfold ProducerStateManager.writeSnapshot ProducerStateManager.pruneOldSnapshots
  dsimp only
  split
  · exact written.present
  · exact (prune_keeps (Int.le_refl _)).mpr written.present

/-- A roll hook that takes its snapshot while the ring of the producer lists the batches `bs` in array order leaves
what recovery needs to continue from these batches. -/
theorem writeSnapshot_snapshotOf (m : ProducerStateManager) {newBase : Int} (latest : ∀ f ∈ m.dir, f.base ≤ newBase)
    (base : -2 ^ 63 ≤ newBase ∧ newBase < 2 ^ 63) (few : order.length < 2 ^ 32)
    (visits : ∀ pid, m.state.producers pid ≠ none → pid ∈ order) (int64 : -2 ^ 63 ≤ pid ∧ pid < 2 ^ 63)
    (entry : bs = [] ∧ m.state.producers pid = none ∨ ∃ log, m.state.producers pid = some log ∧ log.Lists bs) :
    SnapshotOf (m.writeSnapshot newBase (m.state.snapshot order)).dir newBase pid bs := by
  have fewer : (m.state.snapshot order).length ≤ order.length := List.length_filterMap_le _ _
  exact .file (writeSnapshot_newest m _ latest) (by omega) base (snapshot_entryOf visits int64 entry)

/-! ### The recovered state -/

theorem recover_state {cl : CommitLog} {base e : Nat} {active : List StoredBatch} {tail : Bytes}
    (based : cl.activeSegment.baseOffset = base) (file : cl.activeSegment.logFile = bytesOf active ++ tail)
    (torn : Torn tail) (chain : Chained base active e) (m : ProducerStateManager) (clock : Int → Int) :
    m.recover clock cl = .ok { m with
      state := (active.map StoredBatch.header).foldl (recordHeader clock) (loadedState m.dir base m.state) } := by
  have below := loadLatest_le m.dir (Int.natCast_nonneg base)
  have visited : active.filter (StoredBatch.reaches base) = active := by
    apply List.filter_eq_self.mpr
    intro f member
    have inside := (chained_mem chain member).1
    exact decide_eq_true (by omega)
  have walked := fun st => walkHeaders_batches (fun s h =>
    (.ok (recordHeader clock s h) : Except Unit IdempotenceState))
    base torn active st
  simp only [visited] at walked
  have folded : ∀ st,
    active.foldlM (fun s f => (.ok (recordHeader clock s f.header) : Except Unit IdempotenceState)) st =
      .ok ((active.map StoredBatch.header).foldl (recordHeader clock) st) := by
    intro st
    rw [List.foldl_map]
    exact List.foldlM_pure
  have scanFrom : (if cl.activeSegmentBaseOffset > (loadLatestProducerSnapshot m.dir cl.activeSegmentBaseOffset).1
      then cl.activeSegmentBaseOffset else (loadLatestProducerSnapshot m.dir cl.activeSegmentBaseOffset).1) =
        cl.activeSegment.baseOffset := by
    rw [CommitLog.activeSegmentBaseOffset, based]
    split <;> omega
  unfold ProducerStateManager.recover
  dsimp only
  rw [scanFrom, walkBatchHeadersFrom_active, Segment.walkBatchHeaders, file, based, walked, folded, loadedState,
    CommitLog.activeSegmentBaseOffset, based]
  rfl

/-- When recovery gets the entry of a producer right that sent the batches `earlier` before the active segment
and `active` in it: five batches of the current epoch in the active segment, or a snapshot of the batches of this
epoch up to the roll, with no batch of another epoch behind it. The snapshot may be later than the roll, if the
ring then has room for the batches it gets twice. -/
def Recoverable (dir : SnapshotDir) (activeBase pid : Int) (earlier active : List SentBatch) : Prop :=
  Distinct (earlier ++ active) ∧
    match (earlier ++ active).getLast? with
    | none => SnapshotOf dir activeBase pid []
    | some last =>
      (∃ old new, active = old ++ new ∧ idempotenceRingSize ≤ new.length ∧ ∀ b ∈ new, b.epoch = last.epoch) ∨
      (∀ b ∈ active, b.epoch = last.epoch) ∧ ∃ j, SnapshotOf dir activeBase pid
        (inEpoch last earlier ++ active.take j) ∧
        (j = 0 ∨ inEpoch last earlier = [] ∨
          (inEpoch last earlier).length + j + active.length ≤ idempotenceRingSize)

theorem recover_recalls (dir : SnapshotDir) (clock : Int → Int) {base : Int} {earlier active : List StoredBatch}
    (idempotent : 0 ≤ pid) (recoverable : Recoverable dir base pid (sentBy pid earlier) (sentBy pid active)) :
    Recalls (((active.map StoredBatch.header).foldl (recordHeader clock)
      (loadedState dir base IdempotenceState.empty)).producers pid) (sentBy pid (earlier ++ active)) := by
  obtain ⟨_, recoverable⟩ := recoverable
  rw [recordHeaders_entry clock idempotent, sentBy_append]
  cases sends : (sentBy pid earlier ++ sentBy pid active).getLast? with
  | none =>
    rw [sends] at recoverable
    have empty := List.getLast?_eq_none_iff.mp sends
    have loaded := loadedState_loaded recoverable (by simp)
    obtain ⟨_, none⟩ := List.append_eq_nil_iff.mp empty
    unfold Recalls
    rw [sends, none]
    exact loaded
  | some last =>
    rw [sends] at recoverable
    rcases recoverable with ⟨old, new, split, many, same⟩ | ⟨same, j, snapshot, spare⟩
    · rw [split] at sends ⊢
      exact recalls_full clock _ sends many same
    · refine recalls_loaded clock sends same (loadedState_loaded snapshot fun b member => ?_) spare
      rcases List.mem_append.mp member with early | late
      · exact sentBy_fits (List.mem_of_mem_filter early)
      · exact sentBy_fits (List.mem_of_mem_take late)

theorem replay_recalls (clock : Int → Int)
    (recent : ∀ last, sent.getLast? = some last → ∀ b ∈ keepLast idempotenceRingSize sent, b.epoch = last.epoch) :
    Recalls (sent.foldl (recordSent clock) none) sent := by
  cases sends : sent.getLast? with
  | none =>
    rw [List.getLast?_eq_none_iff.mp sends]
    rfl
  | some last =>
    obtain ⟨b, rest, rfl⟩ := List.exists_cons_of_ne_nil (List.ne_nil_of_mem (List.mem_of_getLast? sends))
    obtain ⟨log, folded, slots, _, lasts⟩ := recordSent_run clock (b :: rest) (newProducerBatchLog b.epoch)
    have kept : lastFive (b :: rest) = keepLast idempotenceRingSize (b :: rest) := by
      unfold lastFive
      rw [sends]
      exact keepLast_filter fun b member => decide_eq_true (recent last sends b member)
    unfold Recalls
    rw [sends, recordSent_none, folded]
    refine ⟨log, rfl, (lasts last sends).1, (lasts last sends).2, fun slot nonneg => ?_⟩
    rw [← mem_slots, slots, newProducerBatchLog_slots, kept, mem_keepLast_blanks nonneg]

/-- The state has the last epoch and sequence of the producer, reports each of its last five batches of the epoch
as a duplicate with its base offset and nothing else, and answers accordingly. -/
structure Remembers (s : IdempotenceState) (pid : Int) (sent : List SentBatch) : Prop where
  unknown : sent = [] → s.producers pid = none
  known : ∀ last, sent.getLast? = some last → ∃ log, s.producers pid = some log ∧ log.lastEpoch = last.epoch ∧
    log.lastSeq = last.lastSeq ∧ ∀ firstSeq lastSeq baseOffset, lookupRing log firstSeq lastSeq = some baseOffset ↔
      ∃ b ∈ lastFive sent, b.firstSeq = firstSeq ∧ b.lastSeq = lastSeq ∧ b.baseOffset = baseOffset
  answers : ∀ now epoch firstSeq lastSeq,
    (∀ log, s.producers pid = some log → IdempotenceState.expired log now = false) →
    (s.validate now pid epoch firstSeq lastSeq).2 = answer sent epoch firstSeq lastSeq

theorem recalls_remembers (distinct : Distinct sent) (recalls : Recalls (s.producers pid) sent) :
    Remembers s pid sent where
  unknown := by
    rintro rfl
    exact recalls
  known := by
    intro last sends
    have entry := recalls
    unfold Recalls at entry
    rw [sends] at entry
    obtain ⟨log, found, lastEpoch, lastSeqs, slots⟩ := entry
    refine ⟨log, found, lastEpoch, lastSeqs, fun firstSeq lastSeq baseOffset => ?_⟩
    rw [lookupRing_recalls distinct slots, Option.map_eq_some_iff]
    constructor
    · rintro ⟨b, here, base⟩
      have same := List.find?_some here
      rw [decide_eq_true_eq] at same
      exact ⟨b, List.mem_of_find?_eq_some here, same.1, same.2, base⟩
    · rintro ⟨b, member, first, lasts, base⟩
      cases here : (lastFive sent).find? (fun b => decide (b.firstSeq = firstSeq ∧ b.lastSeq = lastSeq)) with
      | none => exact absurd (decide_eq_true ⟨first, lasts⟩) (List.find?_eq_none.mp here b member)
      | some b' =>
        have same := List.find?_some here
        rw [decide_eq_true_eq] at same
        refine ⟨b', rfl, ?_⟩
        rw [← base]
        exact distinct.apart b' (List.mem_of_find?_eq_some here) b member (same.1.trans first.symm)
          (same.2.trans lasts.symm)
  answers now epoch firstSeq lastSeq current := validate_recalls distinct recalls current epoch firstSeq lastSeq

end KafGo.Coordinator
