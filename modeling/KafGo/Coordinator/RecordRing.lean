import KafGo.Coordinator.SnapshotRoundTrip

/-!
# The ring after any history

`Record` overwrites the slot at the write position and moves on. Whatever was recorded, also for other producers in
between, the ring read from the write position on holds the last five batches of its own producer.
-/

namespace KafGo.Coordinator
open Lib

/-- The `Record` calls of all producers, in the order in which they got the lock. -/
def IdempotenceState.recordCalls (s : IdempotenceState) (calls : List (Int64 × RecordCall)) : IdempotenceState :=
  calls.foldl (fun s call => s.record call.2.now.toInt call.1.toInt call.2.epoch.toInt call.2.firstSeq.toInt
    call.2.lastSeq.toInt call.2.baseOff.toInt) s

def callsOf (pid : Int64) (calls : List (Int64 × RecordCall)) : List RecordCall :=
  (calls.filter fun call => decide (call.1 = pid)).map Prod.snd

def lastCalls (pid : Int64) (calls : List (Int64 × RecordCall)) : List RecordCall :=
  keepLast idempotenceRingSize (callsOf pid calls)

def RecordCall.range (c : RecordCall) : Int32 × Int32 := (c.firstSeq, c.lastSeq)

def recordEntry (entry : Option ProducerBatchLog) (c : RecordCall) : Option ProducerBatchLog :=
  some ((entry.getD (newProducerBatchLog c.epoch.toInt)).recordCall c)

theorem recordCalls_entry (pid : Int64) (calls : List (Int64 × RecordCall)) (s : IdempotenceState) :
    (s.recordCalls calls).producers pid.toInt = (callsOf pid calls).foldl recordEntry (s.producers pid.toInt) := by
  induction calls generalizing s with
  | nil => rfl
  | cons call calls ih =>
    obtain ⟨other, c⟩ := call
    unfold IdempotenceState.recordCalls at ih ⊢
    rw [List.foldl_cons, ih]
    unfold callsOf
    by_cases own : other = pid
    · subst own
      rw [List.filter_cons_of_pos (by simp), List.map_cons, List.foldl_cons]
      congr 1
      exact Function.update_self _ _ _
    · rw [List.filter_cons_of_neg (by simpa using own)]
      congr 1
      exact s.record_other fun same => own (Int64.toInt_inj.mp same.symm)

theorem recordEntry_run (calls : List RecordCall) (log : ProducerBatchLog) :
    calls.foldl recordEntry (some log) = some (calls.foldl ProducerBatchLog.recordCall log) := by
  induction calls generalizing log with
  | nil => rfl
  | cons c calls ih => exact ih (log.recordCall c)

theorem recordEntry_unknown {calls : List RecordCall} (some_call : calls ≠ []) :
    ∃ epoch : Int16, calls.foldl recordEntry none =
      some (calls.foldl ProducerBatchLog.recordCall (newProducerBatchLog epoch.toInt)) := by
  cases calls with
  | nil => exact absurd rfl some_call
  | cons c calls => exact ⟨c.epoch, recordEntry_run calls _⟩

/-! ### Slots and calls -/

/-- The log holds the calls, from the write position on: unused slots, and then the calls from the oldest on. -/
def ProducerBatchLog.HoldsCalls (log : ProducerBatchLog) (kept : List RecordCall) : Prop :=
  log.slots = List.replicate (idempotenceRingSize - kept.length) blankSlot ++ kept.map RecordCall.slot

theorem recordCalls_held (calls : List RecordCall) (epoch : Int) :
    (calls.foldl ProducerBatchLog.recordCall (newProducerBatchLog epoch)).HoldsCalls
      (keepLast idempotenceRingSize calls) := by
  have blanks : ∀ k, keepLast k (List.replicate idempotenceRingSize blankSlot) =
      List.replicate (min k idempotenceRingSize) blankSlot := by
    intro k
    unfold keepLast
    rw [List.length_replicate, List.drop_replicate]
    congr 1
    omega
  unfold ProducerBatchLog.HoldsCalls
  rw [recordCalls_slots, newProducerBatchLog_slots, keepLast_append, keepLast_map, blanks, length_keepLast,
    List.length_map]
  congr 2
  omega

section Held

variable {log : ProducerBatchLog} {kept : List RecordCall}

theorem ProducerBatchLog.HoldsCalls.oldest (held : log.HoldsCalls kept) (full : kept.length = idempotenceRingSize) :
    (kept.head?).map RecordCall.slot = some (log.ring.get log.ringHead) := by
  have first : log.slots.head? = some (log.ring.get log.ringHead) := by
    unfold ProducerBatchLog.slots
    rw [List.head?_rotate (by simp), List.getElem?_eq_getElem (by simp), Vector.getElem_toList]
    rfl
  rw [← first, held, full, Nat.sub_self, List.replicate_zero, List.nil_append, List.head?_map]

theorem ProducerBatchLog.HoldsCalls.mem_ring (held : log.HoldsCalls kept) {slot : ProducerRingSlot}
    (used : 0 ≤ slot.firstSeq) :
    slot ∈ log.ring.toList ↔ ∃ c ∈ kept, c.slot = slot := by
  rw [← mem_slots, held, List.mem_append, List.mem_map]
  refine ⟨fun member => member.elim (fun blank => ?_) id, Or.inr⟩
  rw [List.eq_of_mem_replicate blank] at used
  exact absurd used (by decide)

variable (nonneg : ∀ c ∈ kept, 0 ≤ c.firstSeq.toInt)

include nonneg

theorem lookupRing_held (held : log.HoldsCalls kept) (firstSeq lastSeq : Int) :
    (lookupRing log firstSeq lastSeq).isSome ↔ ∃ c ∈ kept, c.firstSeq.toInt = firstSeq ∧ c.lastSeq.toInt = lastSeq := by
  unfold lookupRing
  rw [Option.isSome_map, List.find?_isSome]
  constructor
  · rintro ⟨slot, member, holds⟩
    rw [ProducerRingSlot.holds, decide_eq_true_eq] at holds
    obtain ⟨c, kept, rfl⟩ := (held.mem_ring holds.1).mp member
    exact ⟨c, kept, holds.2⟩
  · rintro ⟨c, member, range⟩
    have used : 0 ≤ c.slot.firstSeq := nonneg c member
    exact ⟨c.slot, (held.mem_ring used).mpr ⟨c, member, rfl⟩, decide_eq_true ⟨used, range⟩⟩

theorem lookupRing_distinct (held : log.HoldsCalls kept) (distinct : (kept.map RecordCall.range).Nodup)
    {c : RecordCall} (member : c ∈ kept) : lookupRing log c.firstSeq.toInt c.lastSeq.toInt = some c.baseOff.toInt := by
  obtain ⟨base, found⟩ := Option.isSome_iff_exists.mp
    ((lookupRing_held nonneg held c.firstSeq.toInt c.lastSeq.toInt).mpr ⟨c, member, rfl, rfl⟩)
  obtain ⟨slot, first, rfl⟩ := Option.map_eq_some_iff.mp found
  have holds := List.find?_some first
  rw [ProducerRingSlot.holds, decide_eq_true_eq] at holds
  obtain ⟨c', member', rfl⟩ := (held.mem_ring holds.1).mp (List.mem_of_find?_eq_some first)
  have same : c' = c := by
    apply List.inj_on_of_nodup_map distinct member' member
    exact Prod.ext (Int32.toInt_inj.mp holds.2.1) (Int32.toInt_inj.mp holds.2.2)
  rw [found, same]
  rfl

end Held

/-- The ring of a producer that was unknown at first, after any calls: the last five of its own, whatever the other
producers recorded in between. -/
theorem record_ring (s : IdempotenceState) {pid : Int64} (unknown : s.producers pid.toInt = none)
    (calls : List (Int64 × RecordCall)) (nonneg : ∀ c ∈ callsOf pid calls, 0 ≤ c.firstSeq.toInt) :
    (callsOf pid calls = [] → (s.recordCalls calls).producers pid.toInt = none) ∧
    (callsOf pid calls ≠ [] → ∃ log, (s.recordCalls calls).producers pid.toInt = some log ∧
      log.HoldsCalls (lastCalls pid calls) ∧
      (idempotenceRingSize ≤ (callsOf pid calls).length →
        (lastCalls pid calls).head?.map RecordCall.slot = some (log.ring.get log.ringHead)) ∧
      (∀ firstSeq lastSeq, (lookupRing log firstSeq lastSeq).isSome ↔
        ∃ c ∈ lastCalls pid calls, c.firstSeq.toInt = firstSeq ∧ c.lastSeq.toInt = lastSeq) ∧
      (((lastCalls pid calls).map RecordCall.range).Nodup → ∀ c ∈ lastCalls pid calls,
        lookupRing log c.firstSeq.toInt c.lastSeq.toInt = some c.baseOff.toInt)) ∧
    (s.recordCalls calls).producers pid.toInt =
      (s.recordCalls (calls.filter fun call => decide (call.1 = pid))).producers pid.toInt := by
  have entry := recordCalls_entry pid calls s
  rw [unknown] at entry
  refine ⟨fun none => by rw [entry, none]; rfl, fun some_call => ?_, ?_⟩
  · obtain ⟨epoch, made⟩ := recordEntry_unknown some_call
    have held := recordCalls_held (callsOf pid calls) epoch.toInt
    have recent : ∀ c ∈ lastCalls pid calls, 0 ≤ c.firstSeq.toInt :=
      fun c member => nonneg c (mem_of_mem_keepLast member)
    refine ⟨_, entry.trans made, held, fun full => ?_, lookupRing_held recent held, fun distinct c member => ?_⟩
    · exact held.oldest (by rw [length_keepLast, Nat.min_eq_left full])
    · exact lookupRing_distinct recent held distinct member
  · rw [recordCalls_entry, recordCalls_entry, callsOf, callsOf, List.filter_filter]
    simp only [Bool.and_self]

def interleaved : List (Int64 × RecordCall) :=
  (singleRecords 7).map (Prod.mk 7) |>.insertIdx 3 (8, ⟨0, 0, 4, 4, 50⟩)

theorem record_ring_interleaved : (callsOf 7 interleaved).length = 7 ∧
    ∃ log, (IdempotenceState.empty.recordCalls interleaved).producers 7 = some log ∧
      lookupRing log 4 4 = some 104 ∧ lookupRing log 1 1 = none := by
  have nonneg : ∀ c ∈ callsOf 7 interleaved, 0 ≤ c.firstSeq.toInt := by decide +kernel
  obtain ⟨_, known, _⟩ := record_ring .empty rfl interleaved nonneg
  obtain ⟨log, entry, _, _, found, offsets⟩ := known (by decide +kernel)
  refine ⟨by decide +kernel, log, entry, ?_, ?_⟩
  · have kept : (lastCalls 7 interleaved)[2]? = some ⟨1000, 0, 4, 4, 104⟩ := rfl
    exact offsets (by decide +kernel) _ (List.mem_of_getElem? kept)
  · rw [← Option.not_isSome_iff_eq_none, found]
    decide +kernel

end KafGo.Coordinator
