import KafGo.Coordinator.ProducerStateManager

/-!
# Snapshots of any state

Where in a ring the next slot is overwritten is not in the file. The decoder takes it to be behind the used
slots, which is right for a ring that is not full, and for a full one at the start of the array.
-/

namespace KafGo.Coordinator
open Lib Storage

structure RecordCall where
  now : Int64
  epoch : Int16
  firstSeq : Int32
  lastSeq : Int32
  baseOff : Int64

def RecordCall.slot (c : RecordCall) : ProducerRingSlot := ⟨c.firstSeq.toInt, c.lastSeq.toInt, c.baseOff.toInt, -1⟩

def ProducerBatchLog.recordCall (log : ProducerBatchLog) (c : RecordCall) : ProducerBatchLog :=
  IdempotenceState.recorded log c.now.toInt c.epoch.toInt c.firstSeq.toInt c.lastSeq.toInt c.baseOff.toInt

/-- The calls that have led to an entry since it was made. -/
structure LogHistory where
  epoch : Int16
  calls : List RecordCall
  nonneg : ∀ c ∈ calls, 0 ≤ c.firstSeq.toInt ∧ 0 ≤ c.lastSeq.toInt

def LogHistory.log (h : LogHistory) : ProducerBatchLog :=
  h.calls.foldl ProducerBatchLog.recordCall (newProducerBatchLog h.epoch.toInt)

/-- The next slot to overwrite is the one the decoder takes it to be. -/
def LogHistory.Unrotated (h : LogHistory) : Prop :=
  h.calls.length < idempotenceRingSize ∨ idempotenceRingSize ∣ h.calls.length

instance (h : LogHistory) : Decidable h.Unrotated := inferInstanceAs (Decidable (_ ∨ _))

/-! ### The entry of a producer -/

structure ProducerBatchLog.Fits (log : ProducerBatchLog) : Prop where
  lastSeq : wrapSigned 32 log.lastSeq = log.lastSeq
  lastOffset : wrapSigned 64 log.lastOffset = log.lastOffset
  lastEpoch : wrapSigned 16 log.lastEpoch = log.lastEpoch
  lastLeaderEpoch : wrapSigned 32 log.lastLeaderEpoch = log.lastLeaderEpoch
  lastTimestamp : wrapSigned 64 log.lastTimestamp = log.lastTimestamp

theorem RecordCall.slot_reread (c : RecordCall) : c.slot.reread = c.slot := by
  simp [RecordCall.slot, ProducerRingSlot.reread, wrapSigned_int32, wrapSigned_int64]
  decide

theorem newProducerBatchLog_fits (epoch : Int16) : (newProducerBatchLog epoch.toInt).Fits :=
  have negative : wrapSigned 32 (-1) = -1 := by decide
  have zero : wrapSigned 64 0 = 0 := by decide
  ⟨negative, zero, wrapSigned_int16 epoch, negative, zero⟩

variable {log : ProducerBatchLog} {n : Nat} {s : IdempotenceState}

theorem recordCall_fits (fits : log.Fits) (c : RecordCall) : (log.recordCall c).Fits := by
  refine ⟨wrapSigned_int32 _, ?_, wrapSigned_int16 _, fits.lastLeaderEpoch, wrapSigned_int64 _⟩
  have again := wrapSigned_add 64 (c.baseOff.toInt + wrapSigned 32 (c.lastSeq.toInt - c.firstSeq.toInt)) 0
  rwa [Int.add_zero, Int.add_zero] at again

/-- After `n` calls the write position has gone round `n` times, and the slots that it has passed are used. -/
structure Written (log : ProducerBatchLog) (n : Nat) : Prop where
  fits : log.Fits
  head : log.ringHead = n % idempotenceRingSize
  used : ∀ (i : Nat) (_ : i < idempotenceRingSize), i < n → 0 ≤ log.ring[i].firstSeq ∧ log.ring[i].reread = log.ring[i]
  blank : ∀ (i : Nat) (_ : i < idempotenceRingSize), n ≤ i → log.ring[i] = blankSlot

theorem recordCall_written (written : Written log n) {c : RecordCall} (nonneg : 0 ≤ c.firstSeq.toInt) :
    Written (log.recordCall c) (n + 1) := by
  have head := written.head
  have slot : ∀ (i : Nat) (_ : i < idempotenceRingSize), (log.recordCall c).ring[i] =
      if (log.ringHead : Nat) = i then c.slot else log.ring[i] := by
    intro i bound
    exact Vector.getElem_set log.ringHead.isLt bound
  refine ⟨recordCall_fits written.fits c, ?_, ?_, ?_⟩
  · change (log.ringHead + 1) % idempotenceRingSize = _
    rw [head, Nat.mod_add_mod]
  · intro i bound inside
    rw [slot i bound]
    split
    · exact ⟨nonneg, c.slot_reread⟩
    · rename_i apart
      apply written.used i bound
      rw [head] at apart
      simp only [idempotenceRingSize] at apart bound
      omega
  · intro i bound beyond
    rw [slot i bound, if_neg, written.blank i bound (by omega)]
    rw [head]
    simp only [idempotenceRingSize] at bound ⊢
    omega

theorem LogHistory.written (h : LogHistory) : Written h.log h.calls.length := by
  obtain ⟨epoch, calls, nonneg⟩ := h
  unfold LogHistory.log
  induction calls using List.reverseRecOn with
  | nil =>
    refine ⟨newProducerBatchLog_fits epoch, rfl, fun i _ inside => absurd inside (by simp), fun i bound _ => ?_⟩
    simp [newProducerBatchLog, blankSlot]
  | append_singleton calls c ih =>
    rw [List.foldl_append, List.foldl_cons, List.foldl_nil, List.length_append, List.length_singleton]
    apply recordCall_written
    · exact ih fun c' member => nonneg c' (by simp [member])
    · exact (nonneg c (by simp)).1

theorem Written.usedSlots (written : Written log n) :
    log.usedSlots = log.ring.toList.take n := by
  unfold ProducerBatchLog.usedSlots
  conv_lhs => rw [← List.take_append_drop n log.ring.toList, List.filter_append]
  rw [List.filter_eq_self.mpr, List.filter_eq_nil_iff.mpr, List.append_nil]
  · intro slot member
    obtain ⟨i, inside, rfl⟩ := List.mem_drop_iff_getElem.mp member
    have size : i + n < idempotenceRingSize := by simpa using inside
    have blank := written.blank (i + n) size (by simp)
    simp [Nat.add_comm n i, blank, blankSlot]
  · intro slot member
    obtain ⟨i, inside, rfl⟩ := List.mem_take_iff_getElem.mp member
    have size : i < n ∧ i < idempotenceRingSize := by simpa using inside
    have used := (written.used i size.2 size.1).1
    simpa using used

theorem Written.reread (written : Written log n) : log.reread =
    { log with ringHead := ⟨min n idempotenceRingSize % idempotenceRingSize, Nat.mod_lt _ (by decide)⟩ } := by
  have fits := written.fits
  have ring : ringOf (log.usedSlots.map ProducerRingSlot.reread) = log.ring := by
    apply Vector.ext
    intro i inside
    rw [written.usedSlots]
    simp only [ringOf, Vector.getElem_ofFn, List.getD_eq_getElem?_getD, List.getElem?_map, List.getElem?_take]
    split
    · rename_i within
      have same := (written.used i inside within).2
      simp [inside, same]
    · rename_i beyond
      have blank := written.blank i inside (Nat.le_of_not_lt beyond)
      simp [blank, blankSlot]
  have count : log.usedSlots.length = min n idempotenceRingSize := by
    rw [written.usedSlots, List.length_take, Vector.length_toList]
  simp only [ProducerBatchLog.reread, fits.lastSeq, fits.lastOffset, fits.lastEpoch, fits.lastLeaderEpoch,
    fits.lastTimestamp, ring, count]

theorem LogHistory.reread_iff (h : LogHistory) : h.log.reread = h.log ↔ h.Unrotated := by
  have head := h.written.head
  have turn : min h.calls.length idempotenceRingSize % idempotenceRingSize = h.calls.length % idempotenceRingSize ↔
      h.Unrotated := by
    unfold LogHistory.Unrotated
    simp only [idempotenceRingSize]
    omega
  rw [← turn, ← head, h.written.reread]
  constructor
  · intro same
    exact congrArg (fun log : ProducerBatchLog => log.ringHead.val) same
  · intro same
    have position := Fin.ext (a := ⟨_, Nat.mod_lt _ (by decide)⟩) (b := h.log.ringHead) same
    rw [position]

/-- The producers of a state in the order in which `Snapshot` visits them, with their histories. -/
structure Producers where
  order : List Int64
  nodup : order.Nodup
  history : Int64 → LogHistory

namespace Producers

def state (p : Producers) : IdempotenceState :=
  ⟨fun pid => (p.order.find? fun id => decide (id.toInt = pid)).map fun id => (p.history id).log⟩

def entries (p : Producers) : List ProducerSnapshotEntry := p.state.snapshot (p.order.map Int64.toInt)

/-- What `Restore` gets when the snapshot is written to a directory and the latest one up to `maxBase` loaded. -/
def reloaded (p : Producers) (dir : SnapshotDir) (base maxBase : Int) : IdempotenceState :=
  loadedState (writeProducerSnapshot dir base p.entries) maxBase IdempotenceState.empty

variable {p : Producers}

theorem state_present {pid : Int64} (member : pid ∈ p.order) :
    p.state.producers pid.toInt = some (p.history pid).log := by
  unfold state
  cases found : p.order.find? fun id => decide (id.toInt = pid.toInt) with
  | none =>
    have absent := List.find?_eq_none.mp found pid member
    simp at absent
  | some id =>
    have same : id = pid := by simpa [Int64.toInt_inj] using List.find?_some found
    simp [found, same]

theorem state_absent {pid : Int} (absent : pid ∉ p.order.map Int64.toInt) : p.state.producers pid = none := by
  have missing : (p.order.find? fun id => decide (id.toInt = pid)) = none := by
    apply List.find?_eq_none.mpr
    intro id member same
    exact absent (List.mem_map.mpr ⟨id, member, by simpa using same⟩)
  simp [state, missing]

end Producers

theorem snapshot_ids {order : List Int}
    (present : ∀ pid ∈ order, (-2 ^ 63 ≤ pid ∧ pid < 2 ^ 63) ∧ ∃ log, s.producers pid = some log) :
    (s.snapshot order).map ProducerSnapshotEntry.producerId = order := by
  induction order with
  | nil => rfl
  | cons pid order ih =>
    obtain ⟨int64, log, entry⟩ := present pid (by simp)
    have rest := ih fun other member => present other (by simp [member])
    unfold IdempotenceState.snapshot at rest ⊢
    rw [List.filterMap_cons_some (b := ⟨pid, log, int64⟩) (by rw [dif_pos int64, entry]; rfl), List.map_cons, rest]

namespace Producers

variable {p : Producers}

theorem entries_ids : p.entries.map ProducerSnapshotEntry.producerId = p.order.map Int64.toInt := by
  apply snapshot_ids
  intro pid member
  obtain ⟨id, inside, rfl⟩ := List.mem_map.mp member
  exact ⟨⟨Int64.le_toInt id, Int64.toInt_lt id⟩, _, state_present inside⟩

theorem length_entries : p.entries.length = p.order.length := by
  have same := congrArg List.length (entries_ids (p := p))
  simpa using same

section Reloaded

variable {dir : SnapshotDir} {base maxBase : Int} (lower : -2 ^ 63 ≤ base) (upper : base < 2 ^ 63)
  (below : base ≤ maxBase) (latest : ∀ f ∈ dir, f.base ≤ maxBase → f.base ≤ base)

include lower upper below latest

theorem reloaded_eq : p.reloaded dir base maxBase = IdempotenceState.restore
    ((p.entries.take (p.order.length % 2 ^ 32)).map ProducerSnapshotEntry.reread) := by
  unfold reloaded loadedState
  rw [loadLatest_newest (newest_written _ below latest) (decodeSnapshot_written lower upper _), length_entries]

/-- The producers that the count in the header covers have their entries, up to the write positions, and the
others have none. -/
theorem reloaded_producers (pid : Int) : (p.reloaded dir base maxBase).producers pid =
    if pid ∈ (p.order.map Int64.toInt).take (p.order.length % 2 ^ 32) then
      (p.state.producers pid).map ProducerBatchLog.reread
    else none := by
  have ids : ((p.entries.take (p.order.length % 2 ^ 32)).map ProducerSnapshotEntry.reread).map
      ProducerSnapshotEntry.producerId = (p.order.map Int64.toInt).take (p.order.length % 2 ^ 32) := by
    rw [← entries_ids, List.map_map, List.map_take]
    rfl
  rw [reloaded_eq lower upper below latest, ← ids]
  rcases restore_producers ((p.entries.take (p.order.length % 2 ^ 32)).map ProducerSnapshotEntry.reread) pid with
    ⟨without, none⟩ | ⟨e, member, own, found⟩
  · rw [none, if_neg]
    intro listed
    obtain ⟨e, member, own⟩ := List.mem_map.mp listed
    exact without e member own
  · rw [found, if_pos (List.mem_map.mpr ⟨e, member, own⟩)]
    obtain ⟨e', member', rfl⟩ := List.mem_map.mp member
    have held := (snapshot_mem.mp (List.mem_of_mem_take member')).2
    have same : e'.producerId = pid := own
    rw [← same, held]
    rfl

theorem reloaded_same (few : p.order.length < 2 ^ 32) (unrotated : ∀ pid ∈ p.order, (p.history pid).Unrotated) :
    p.reloaded dir base maxBase = p.state := by
  suffices same : (p.reloaded dir base maxBase).producers = p.state.producers from congrArg IdempotenceState.mk same
  funext pid
  rw [reloaded_producers lower upper below latest, Nat.mod_eq_of_lt few, List.take_of_length_le (by simp)]
  split
  · rename_i listed
    obtain ⟨id, member, rfl⟩ := List.mem_map.mp listed
    rw [state_present member, Option.map_some, (p.history id).reread_iff.mpr (unrotated id member)]
  · rename_i absent
    exact (state_absent absent).symm

end Reloaded

end Producers

/-! ### Telling two states apart -/

inductive StateCall where
  | record (pid : Int64) (c : RecordCall)
  | validate (now pid : Int64) (epoch : Int16) (firstSeq lastSeq : Int32)

/-- The answers that a sequence of calls gets. `Record` has none. -/
def IdempotenceState.answers (s : IdempotenceState) : List StateCall → List Verdict
  | [] => []
  | .record pid c :: later =>
    (s.record c.now.toInt pid.toInt c.epoch.toInt c.firstSeq.toInt c.lastSeq.toInt c.baseOff.toInt).answers later
  | .validate now pid epoch firstSeq lastSeq :: later =>
    let (s', verdict) := s.validate now.toInt pid.toInt epoch.toInt firstSeq.toInt lastSeq.toInt
    verdict :: s'.answers later

theorem answers_records {pid : Int64} (entry : s.producers pid.toInt = some log) (calls : List RecordCall)
    (later : List StateCall) :
    ∃ s' : IdempotenceState, s.answers (calls.map (StateCall.record pid) ++ later) = s'.answers later ∧
      s'.producers pid.toInt = some (calls.foldl ProducerBatchLog.recordCall log) := by
  induction calls generalizing s log with
  | nil => exact ⟨s, rfl, entry⟩
  | cons c calls ih =>
    apply ih
    unfold IdempotenceState.record
    rw [entry]
    exact Function.update_self _ _ _

theorem recordCalls_slots (calls : List RecordCall) (log : ProducerBatchLog) :
    (calls.foldl ProducerBatchLog.recordCall log).slots =
      keepLast idempotenceRingSize (log.slots ++ calls.map RecordCall.slot) := by
  induction calls using List.reverseRecOn with
  | nil => rw [List.map_nil, List.append_nil, keepLast_of_le (Nat.le_of_eq (length_slots log))]; rfl
  | append_singleton calls c ih =>
    rw [List.foldl_append, List.foldl_cons, List.foldl_nil, ProducerBatchLog.recordCall, recorded_slots, ih,
      keepLast_keepLast_append, List.map_append, List.append_assoc]
    rfl

theorem recordCalls_head (calls : List RecordCall) (log : ProducerBatchLog) :
    ((calls.foldl ProducerBatchLog.recordCall log).ringHead : Nat) =
      (log.ringHead + calls.length) % idempotenceRingSize := by
  induction calls generalizing log with
  | nil => exact (Nat.mod_eq_of_lt log.ringHead.isLt).symm
  | cons c calls ih =>
    have moved : ((log.recordCall c).ringHead : Nat) = (log.ringHead + 1) % idempotenceRingSize := rfl
    rw [List.foldl_cons, ih, moved, Nat.mod_add_mod, List.length_cons, Nat.add_assoc, Nat.add_comm 1]

/-- Five batches with the same sequence numbers, told apart by their base offsets. -/
def fiveCalls : List RecordCall := (List.range idempotenceRingSize).map fun i => ⟨0, 0, 0, 0, Int64.ofNat i⟩

theorem lookupRing_fiveCalls (log : ProducerBatchLog) :
    lookupRing (fiveCalls.foldl ProducerBatchLog.recordCall log) 0 0 =
      some (((idempotenceRingSize - log.ringHead) % idempotenceRingSize : Nat) : Int) := by
  have slots := recordCalls_slots fiveCalls log
  have same : (fiveCalls.foldl ProducerBatchLog.recordCall log).ringHead = log.ringHead := by
    apply Fin.ext
    rw [recordCalls_head]
    exact (Nat.add_mod_right _ _).trans (Nat.mod_eq_of_lt log.ringHead.isLt)
  rw [keepLast_suffix _ (by decide), ProducerBatchLog.slots, same, List.rotate_eq_iff] at slots
  unfold lookupRing
  rw [slots]
  generalize log.ringHead = head
  revert head
  decide

theorem answers_fiveCalls {pid : Int64} (entry : s.producers pid.toInt = some log) :
    s.answers (fiveCalls.map (StateCall.record pid) ++ [.validate 0 pid 0 0 0]) =
      [.duplicate (((idempotenceRingSize - log.ringHead) % idempotenceRingSize : Nat) : Int)] := by
  obtain ⟨s', same, entry'⟩ := answers_records entry fiveCalls [.validate 0 pid 0 0 0]
  have current : IdempotenceState.expired (fiveCalls.foldl ProducerBatchLog.recordCall log) 0 = false := rfl
  have lastEpoch : (fiveCalls.foldl ProducerBatchLog.recordCall log).lastEpoch = 0 := rfl
  have lastSeq : (fiveCalls.foldl ProducerBatchLog.recordCall log).lastSeq = 0 := rfl
  have verdict : (s'.validate 0 pid.toInt 0 0 0).2 =
      .duplicate (((idempotenceRingSize - log.ringHead) % idempotenceRingSize : Nat) : Int) := by
    unfold IdempotenceState.validate
    rw [entry']
    dsimp only
    rw [current, lastEpoch, lastSeq, lookupRing_fiveCalls]
    rfl
  rw [same]
  exact congrArg (fun verdict => [verdict]) verdict

theorem validate_known {now pid epoch firstSeq lastSeq : Int} (entry : s.producers pid = some log)
    (current : IdempotenceState.expired log now = false) :
    (s.validate now pid epoch firstSeq lastSeq).2 ≠ .rejected errUnknownProducerId := by
  unfold IdempotenceState.validate
  rw [entry]
  dsimp only
  rw [current, if_neg (by decide)]
  repeat' split
  all_goals simp [errUnknownProducerId, errInvalidProducerEpoch, errOutOfOrderSequenceNumber,
    errDuplicateSequenceNumber]

namespace Producers

variable {p : Producers} {dir : SnapshotDir} {base maxBase : Int}

theorem answers_lost {pid : Int64} (member : pid ∈ p.order)
    (lost : (p.reloaded dir base maxBase).producers pid.toInt = none) :
    ∃ later, (p.reloaded dir base maxBase).answers later ≠ p.state.answers later := by
  have fits := (p.history pid).written.fits.lastTimestamp
  refine ⟨[.validate (Int64.ofInt (p.history pid).log.lastTimestamp) pid 0 1 1], ?_⟩
  have clock : (Int64.ofInt (p.history pid).log.lastTimestamp).toInt = (p.history pid).log.lastTimestamp := by
    rw [← fits]
    apply Int64.toInt_ofInt_of_le
    · exact (signed_fits (by decide) (unsigned_lt _ _)).1
    · exact (signed_fits (by decide) (unsigned_lt _ _)).2
  intro same
  have unknown : ((p.reloaded dir base maxBase).validate (p.history pid).log.lastTimestamp pid.toInt 0 1 1).2 =
      .rejected errUnknownProducerId := by
    unfold IdempotenceState.validate
    rw [lost]
    rfl
  have known : (p.state.validate (p.history pid).log.lastTimestamp pid.toInt 0 1 1).2 ≠
    .rejected errUnknownProducerId :=
    validate_known (state_present member) (by simp [IdempotenceState.expired, producerIdExpirationMs])
  apply known
  rw [← unknown, ← clock]
  exact (List.cons.inj same).1.symm

theorem answers_unrotated {pid : Int64} (member : pid ∈ p.order)
    (kept : (p.reloaded dir base maxBase).producers pid.toInt = some (p.history pid).log.reread)
    (same : ∀ later, (p.reloaded dir base maxBase).answers later = p.state.answers later) :
    (p.history pid).Unrotated := by
  have probed := same (fiveCalls.map (StateCall.record pid) ++ [.validate 0 pid 0 0 0])
  rw [answers_fiveCalls kept, answers_fiveCalls (state_present member), (p.history pid).written.reread] at probed
  have turn := Int.ofNat_inj.mp (Verdict.duplicate.inj (List.cons.inj probed).1)
  rw [(p.history pid).written.head] at turn
  unfold LogHistory.Unrotated
  simp only [idempotenceRingSize] at turn ⊢
  omega

end Producers

def LogHistory.entry (h : LogHistory) (pid : Int64) : ProducerSnapshotEntry :=
  ⟨pid.toInt, h.log, Int64.le_toInt pid, Int64.toInt_lt pid⟩

theorem LogHistory.decode_iff (h : LogHistory) (pid : Int64) (rest : Bytes) :
    decodeProducerStateEntry (encodeProducerStateEntry (h.entry pid) ++ rest) =
      .ok (h.entry pid, (encodeProducerStateEntry (h.entry pid)).length) ↔ h.Unrotated := by
  rw [decodeEntry_encode, ← h.reread_iff]
  constructor
  · intro same
    exact congrArg ProducerSnapshotEntry.log (Prod.mk.inj (Except.ok.inj same)).1
  · intro same
    have back : (h.entry pid).reread = h.entry pid := by
      unfold ProducerSnapshotEntry.reread
      rw [show (h.entry pid).log.reread = h.log from same]
      rfl
    rw [back]

/-- An entry is decoded as it was encoded exactly if its ring is not full or the number of its records is a
multiple of the size of the ring. A snapshot gives back a state with the same answers to every later sequence
of calls exactly if this holds of all its entries and their number fits the header. -/
theorem producerSnapshot_roundTrip_iff (p : Producers) (dir : SnapshotDir) (base : Int64) {maxBase : Int}
    (below : base.toInt ≤ maxBase) (latest : ∀ f ∈ dir, f.base ≤ maxBase → f.base ≤ base.toInt) :
    (∀ (h : LogHistory) (pid : Int64) (rest : Bytes),
      decodeProducerStateEntry (encodeProducerStateEntry (h.entry pid) ++ rest) =
        .ok (h.entry pid, (encodeProducerStateEntry (h.entry pid)).length) ↔ h.Unrotated) ∧
    ((∀ later, (p.reloaded dir base.toInt maxBase).answers later = p.state.answers later) ↔
      p.order.length < 2 ^ 32 ∧ ∀ pid ∈ p.order, (p.history pid).Unrotated) := by
  refine ⟨LogHistory.decode_iff, ?_, ?_⟩
  · intro same
    have read := Producers.reloaded_producers (p := p) (Int64.le_toInt base) (Int64.toInt_lt base) below latest
    have few : p.order.length < 2 ^ 32 := by
      by_contra many
      have inside : p.order.length % 2 ^ 32 < p.order.length := by
        have small := Nat.mod_lt p.order.length (Nat.two_pow_pos 32)
        omega
      have cut : (p.order[p.order.length % 2 ^ 32]).toInt ∉
          (p.order.map Int64.toInt).take (p.order.length % 2 ^ 32) := by
        intro early
        rw [← List.map_take, List.mem_map] at early
        obtain ⟨id, member, equal⟩ := early
        obtain ⟨i, bound, rfl⟩ := List.mem_take_iff_getElem.mp member
        have again := (List.Nodup.getElem_inj_iff p.nodup).mp (Int64.toInt_inj.mp equal)
        omega
      have lost := read (p.order[p.order.length % 2 ^ 32]).toInt
      rw [if_neg cut] at lost
      obtain ⟨later, differ⟩ := Producers.answers_lost (List.getElem_mem inside) lost
      exact differ (same later)
    refine ⟨few, fun pid member => ?_⟩
    apply Producers.answers_unrotated member _ same
    rw [read, Nat.mod_eq_of_lt few, List.take_of_length_le (by simp), if_pos (List.mem_map_of_mem member),
      Producers.state_present member]
    rfl
  · rintro ⟨few, unrotated⟩ later
    rw [Producers.reloaded_same (Int64.le_toInt base) (Int64.toInt_lt base) below latest few unrotated]

def singleRecords (n : Nat) : List RecordCall :=
  (List.range n).map fun i => ⟨1000, 0, Int32.ofNat i, Int32.ofNat i, Int64.ofNat (100 + i)⟩

theorem producerSnapshot_roundTrip_pair :
    let p : Producers := ⟨[7, 42], by decide, fun pid => if pid = 7 then ⟨0, singleRecords 2, by decide⟩ else
      ⟨1, singleRecords 5, by decide⟩⟩
    decodeProducerStateEntry (encodeProducerStateEntry ((p.history 42).entry 42) ++ []) =
        .ok ((p.history 42).entry 42, (encodeProducerStateEntry ((p.history 42).entry 42)).length) ∧
      ∀ later, (p.reloaded [] 1000 1000).answers later = p.state.answers later := by
  intro p
  have both := producerSnapshot_roundTrip_iff p [] 1000 (Int.le_refl _) (by simp)
  have few : p.order.length < 2 ^ 32 := show 2 < 2 ^ 32 by omega
  have first : (p.history 7).Unrotated := by decide
  have second : (p.history 42).Unrotated := by decide
  have unrotated : ∀ pid ∈ p.order, (p.history pid).Unrotated := by
    intro pid member
    rcases List.mem_pair.mp member with rfl | rfl
    · exact first
    · exact second
  exact ⟨(both.1 (p.history 42) 42 []).mpr second, both.2.mpr ⟨few, unrotated⟩⟩

/-- Six records fill the ring and overwrite its first slot. The reloaded state overwrites this slot again with
the seventh, and no longer knows the sixth. -/
theorem producerSnapshot_forgets :
    let p : Producers := ⟨[7], by decide, fun _ => ⟨0, singleRecords 6, by decide⟩⟩
    let later : List StateCall := [.record 7 ⟨1000, 0, 6, 6, 106⟩, .validate 1000 7 0 5 5]
    p.state.answers later = [.duplicate 105] ∧
      (p.reloaded [] 1000 1000).answers later = [.rejected errDuplicateSequenceNumber] := by
  intro p later
  refine ⟨by decide +kernel, ?_⟩
  rw [Producers.reloaded_eq (by decide) (by decide) (Int.le_refl _) (by simp)]
  decide +kernel

end KafGo.Coordinator
