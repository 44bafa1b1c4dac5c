import KafGo.Coordinator.ProducerStateManager

/-!
# A stream of one producer

An idempotent producer numbers its records 0, 1, 2, … and after 2147483647 starts again at 0. The dedup state follows
such a stream as long as its numbers stay below the maximum. From the batch on that takes the last number, the batch
itself is no longer recognised when it comes again; a batch that goes over the maximum stops the stream.
-/

namespace KafGo.Coordinator
open Lib

/-- A batch of the stream, with the clock when it is validated, when it is recorded, and when recent batches are
validated again after it. -/
structure StreamBatch where
  count : Nat
  positive : 1 ≤ count
  fits : count < 2 ^ 31
  baseOffset : Int
  validated : Int
  recorded : Int
  retried : Int

def StreamBatch.sent (b : StreamBatch) (epoch : Int) (total : Nat) : SentBatch where
  epoch := epoch
  firstSeq := (total % 2 ^ 31 : Nat)
  lastSeq := wrapSigned 32 ((total % 2 ^ 31 : Nat) + wrapSigned 32 b.count - 1)
  baseOffset := b.baseOffset

def IdempotenceState.handle (s : IdempotenceState) (pid : Int) (b : SentBatch) (validated recorded : Int) :
    IdempotenceState × Verdict :=
  match s.validate validated pid b.epoch b.firstSeq b.lastSeq with
  | (s, .fresh) => (s.record recorded pid b.epoch b.firstSeq b.lastSeq b.baseOffset, .fresh)
  | (s, .duplicate baseOffset) => (s, .duplicate baseOffset)
  | (s, .rejected code) => (s, .rejected code)

/-- Every batch is fresh, and after it each of the last five batches is a duplicate with its base offset. `sent` are
the batches so far, with `total` records. -/
def Deduplicated (pid epoch : Int) : Nat → List SentBatch → IdempotenceState → List StreamBatch → Prop
  | _, _, _, [] => True
  | total, sent, s, b :: later =>
    let sent' := sent ++ [b.sent epoch total]
    let result := s.handle pid (b.sent epoch total) b.validated b.recorded
    result.2 = .fresh ∧
    (∀ r ∈ keepLast idempotenceRingSize sent',
      (result.1.validate b.retried pid epoch r.firstSeq r.lastSeq).2 = .duplicate r.baseOffset) ∧
    Deduplicated pid epoch (total + b.count) sent' result.1 later

/-- No validation comes more than an hour after the last record. -/
def Timely : Option Int → List StreamBatch → Prop
  | _, [] => True
  | last, b :: later =>
    (∀ t ∈ last, b.validated - t ≤ producerIdExpirationMs) ∧ b.retried - b.recorded ≤ producerIdExpirationMs ∧
      Timely (some b.recorded) later

def totalCount (stream : List StreamBatch) : Nat := (stream.map StreamBatch.count).sum

structure Follows5 (log : ProducerBatchLog) (epoch lastSeq : Int) (sent : List SentBatch) (t : Int) : Prop where
  lastEpoch : log.lastEpoch = epoch
  lastSeq : log.lastSeq = lastSeq
  lastTimestamp : log.lastTimestamp = t
  slots : log.slots =
    keepLast idempotenceRingSize (List.replicate idempotenceRingSize blankSlot ++ sent.map SentBatch.slot)

/-- The batches number `total` records without a gap. -/
structure InOrder (epoch : Int) (total : Nat) (sent : List SentBatch) : Prop where
  epochs : ∀ b ∈ sent, b.epoch = epoch
  bounded : ∀ b ∈ sent, 0 ≤ b.firstSeq ∧ b.firstSeq < total
  increasing : sent.Pairwise fun a b => a.firstSeq < b.firstSeq

/-- The state before the next batch of the stream. At first it knows the producer under older epochs only. -/
inductive Streams (s : IdempotenceState) (pid epoch : Int) : Nat → List SentBatch → Option Int → Prop where
  | unsent (older : ∀ log, s.producers pid = some log → log.lastEpoch < epoch) : Streams s pid epoch 0 [] none
  | sent {total : Nat} {sent : List SentBatch} {t : Int} (log : ProducerBatchLog) (entry : s.producers pid = some log)
      (positive : 0 < total) (follows : Follows5 log epoch (total - 1) sent t) (order : InOrder epoch total sent) :
      Streams s pid epoch total sent (some t)

theorem sent_firstSeq (b : StreamBatch) (epoch : Int) {total : Nat} (small : total < 2 ^ 31) :
    (b.sent epoch total).firstSeq = total := by
  show ((total % 2 ^ 31 : Nat) : Int) = total
  rw [Nat.mod_eq_of_lt small]

theorem sent_lastSeq (b : StreamBatch) (epoch : Int) {total : Nat} (small : total < 2 ^ 31) :
    (b.sent epoch total).lastSeq = wrapSigned 32 (total + b.count - 1) := by
  have count : wrapSigned 32 (b.count : Int) = b.count := wrapSigned_natCast (by decide) b.fits
  show wrapSigned 32 ((total % 2 ^ 31 : Nat) + wrapSigned 32 b.count - 1) = _
  rw [Nat.mod_eq_of_lt small, count]

theorem sent_lastSeq_below (b : StreamBatch) (epoch : Int) {total : Nat} (small : total + b.count ≤ 2 ^ 31) :
    (b.sent epoch total).lastSeq = total + b.count - 1 := by
  have positive := b.positive
  rw [sent_lastSeq b epoch (by omega), show (total : Int) + b.count - 1 = ((total + b.count - 1 : Nat) : Int) by omega,
    wrapSigned_natCast (by decide) (by omega)]

variable {now firstSeq lastSeq t : Int} {log : ProducerBatchLog}

theorem newProducerBatchLog_follows (s : IdempotenceState) {pid epoch baseOff : Int} (absent : s.producers pid = none) :
    ∃ log, (s.record now pid epoch firstSeq lastSeq baseOff).producers pid = some log ∧
      Follows5 log epoch lastSeq [⟨epoch, firstSeq, lastSeq, baseOff⟩] now := by
  refine ⟨_, Function.update_self _ _ _, rfl, rfl, rfl, ?_⟩
  rw [recorded_slots, absent, Option.getD_none, newProducerBatchLog_slots]
  rfl

theorem record_follows (s : IdempotenceState) {pid epoch baseOff before : Int} {sent : List SentBatch}
    (entry : s.producers pid = some log) (follows : Follows5 log epoch before sent t) :
    ∃ log', (s.record now pid epoch firstSeq lastSeq baseOff).producers pid = some log' ∧
      Follows5 log' epoch lastSeq (sent ++ [⟨epoch, firstSeq, lastSeq, baseOff⟩]) now := by
  refine ⟨_, Function.update_self _ _ _, rfl, rfl, rfl, ?_⟩
  rw [recorded_slots, entry, Option.getD_some, follows.slots, keepLast_keepLast_append, List.map_append,
    List.append_assoc]
  rfl

theorem not_expired :
    IdempotenceState.expired log now = false ↔ now - log.lastTimestamp ≤ producerIdExpirationMs := by
  unfold IdempotenceState.expired
  rw [decide_eq_false_iff_not]
  omega

theorem unknown_not_duplicate (firstSeq baseOffset : Int) :
    IdempotenceState.validateUnknown firstSeq ≠ .duplicate baseOffset := by
  unfold IdempotenceState.validateUnknown
  split <;> rintro ⟨⟩

/-! ### One batch -/

variable {s : IdempotenceState} {pid epoch : Int} {total : Nat} {sent : List SentBatch} {last : Option Int}

theorem handle_fresh (streams : Streams s pid epoch total sent last) (small : total < 2 ^ 31) (b : StreamBatch)
    (timely : ∀ t ∈ last, b.validated - t ≤ producerIdExpirationMs) :
    (s.handle pid (b.sent epoch total) b.validated b.recorded).2 = .fresh ∧
      ∃ log, (s.handle pid (b.sent epoch total) b.validated b.recorded).1.producers pid = some log ∧
        Follows5 log epoch (b.sent epoch total).lastSeq (sent ++ [b.sent epoch total]) b.recorded := by
  cases streams with
  | unsent older =>
    have first : (b.sent epoch 0).firstSeq = 0 := rfl
    have known : (s.validate b.validated pid epoch 0 (b.sent epoch 0).lastSeq).2 = .fresh ∧
        (s.validate b.validated pid epoch 0 (b.sent epoch 0).lastSeq).1.producers pid = none := by
      unfold IdempotenceState.validate
      cases entry : s.producers pid with
      | none => exact ⟨rfl, entry⟩
      | some log =>
        have less := older log entry
        dsimp only
        split
        · exact ⟨rfl, s.delete_same pid⟩
        · rw [if_neg (show ¬ epoch < log.lastEpoch by omega), if_neg (by decide)]
          exact ⟨rfl, s.delete_same pid⟩
    generalize result : s.validate b.validated pid epoch 0 (b.sent epoch 0).lastSeq = validated at known
    obtain ⟨s', verdict⟩ := validated
    obtain ⟨rfl, absent⟩ := known
    have handled : s.handle pid (b.sent epoch 0) b.validated b.recorded =
        (s'.record b.recorded pid epoch 0 (b.sent epoch 0).lastSeq b.baseOffset, .fresh) := by
      unfold IdempotenceState.handle
      rw [show (b.sent epoch 0).epoch = epoch from rfl, first, result]
      rfl
    rw [handled]
    exact ⟨rfl, newProducerBatchLog_follows s' absent⟩
  | sent log entry positive follows order =>
    rename_i t
    have current : IdempotenceState.expired log b.validated = false := by
      rw [not_expired, follows.lastTimestamp]
      exact timely t rfl
    have next : Follows log.lastSeq (b.sent epoch total).firstSeq := by
      left
      rw [follows.lastSeq, sent_firstSeq b epoch small, Int.sub_add_cancel, wrapSigned_natCast (by decide) small]
    have fresh : s.validate b.validated pid epoch (b.sent epoch total).firstSeq (b.sent epoch total).lastSeq =
        (s, .fresh) := by
      unfold IdempotenceState.validate
      rw [entry]
      dsimp only
      rw [current, if_neg (by decide), follows.lastEpoch, if_neg (by omega), if_neg (by omega), if_pos next]
    have handled : s.handle pid (b.sent epoch total) b.validated b.recorded =
        (s.record b.recorded pid epoch (b.sent epoch total).firstSeq
          (b.sent epoch total).lastSeq b.baseOffset, .fresh) := by
      unfold IdempotenceState.handle
      rw [show (b.sent epoch total).epoch = epoch from rfl, fresh]
      rfl
    rw [handled]
    exact ⟨rfl, record_follows s entry follows⟩

theorem handle_late (streams : Streams s pid epoch total sent last) (small : total < 2 ^ 31) (b : StreamBatch)
    (recorded : t ∈ last) (late : ¬ b.validated - t ≤ producerIdExpirationMs) :
    (s.handle pid (b.sent epoch total) b.validated b.recorded).2 ≠ .fresh := by
  cases streams with
  | unsent older => cases recorded
  | sent log entry positive follows order =>
    obtain rfl := Option.some.inj recorded
    have gone : IdempotenceState.expired log b.validated = true := by
      rw [← Bool.not_eq_false, not_expired, follows.lastTimestamp]
      exact late
    have unknown : s.validate b.validated pid epoch (b.sent epoch total).firstSeq (b.sent epoch total).lastSeq =
        (s.delete pid, .rejected errUnknownProducerId) := by
      unfold IdempotenceState.validate IdempotenceState.validateUnknown
      rw [entry]
      dsimp only
      rw [if_pos gone, sent_firstSeq b epoch small, if_pos (by omega)]
    unfold IdempotenceState.handle
    rw [show (b.sent epoch total).epoch = epoch from rfl, unknown]
    rintro ⟨⟩

theorem streams_next (streams : Streams s pid epoch total sent last) (b : StreamBatch)
    (small : total + b.count < 2 ^ 31) {s' : IdempotenceState} (entry : s'.producers pid = some log)
    (follows : Follows5 log epoch (b.sent epoch total).lastSeq (sent ++ [b.sent epoch total]) t) :
    Streams s' pid epoch (total + b.count) (sent ++ [b.sent epoch total]) (some t) := by
  have positive := b.positive
  have before : InOrder epoch total sent := by
    cases streams with
    | unsent older =>
      exact ⟨fun _ none => absurd none List.not_mem_nil, fun _ none => absurd none List.not_mem_nil, List.Pairwise.nil⟩
    | sent log entry positive follows order => exact order
  have first := sent_firstSeq b epoch (show total < 2 ^ 31 by omega)
  refine .sent log entry (by omega) ?_ ⟨?_, ?_, ?_⟩
  · rw [sent_lastSeq_below b epoch (by omega)] at follows
    rw [show ((total + b.count : Nat) : Int) - 1 = (total : Int) + b.count - 1 by omega]
    exact follows
  · intro r member
    rcases List.mem_append.mp member with old | new
    · exact before.epochs r old
    · rw [List.mem_singleton.mp new]
      rfl
  · intro r member
    rcases List.mem_append.mp member with old | new
    · have bounds := before.bounded r old
      omega
    · rw [List.mem_singleton.mp new, first]
      omega
  · refine List.pairwise_append.mpr ⟨before.increasing, List.pairwise_singleton _ _, ?_⟩
    intro r old r' new
    rw [List.mem_singleton.mp new, first]
    exact (before.bounded r old).2

theorem lastFive_inOrder (order : InOrder epoch total sent) : lastFive sent = keepLast idempotenceRingSize sent := by
  unfold lastFive
  cases sends : sent.getLast? with
  | none => rw [List.getLast?_eq_none_iff.mp sends]; rfl
  | some b =>
    have mine := order.epochs b (List.mem_of_getLast? sends)
    apply keepLast_filter
    intro r member
    exact decide_eq_true ((order.epochs r (mem_of_mem_keepLast member)).trans mine.symm)

theorem InOrder.distinct (order : InOrder epoch total sent) : Distinct sent where
  nonneg r member := by
    rw [lastFive_inOrder order] at member
    exact (order.bounded r (mem_of_mem_keepLast member)).1
  apart r member r' member' first _ := by
    rw [lastFive_inOrder order] at member member'
    have nodup : (sent.map SentBatch.firstSeq).Nodup :=
      List.pairwise_map.mpr (order.increasing.imp fun below same => by omega)
    rw [List.inj_on_of_nodup_map nodup (mem_of_mem_keepLast member) (mem_of_mem_keepLast member') first]

theorem lookupRing_recent (follows : Follows5 log epoch lastSeq sent t) (order : InOrder epoch total sent)
    {r : SentBatch} (recent : r ∈ keepLast idempotenceRingSize sent) :
    lookupRing log r.firstSeq r.lastSeq = some r.baseOffset := by
  rw [← lastFive_inOrder order] at recent
  have distinct := order.distinct
  rw [lookupRing_recalls distinct]
  · cases here : (lastFive sent).find? (fun b => decide (b.firstSeq = r.firstSeq ∧ b.lastSeq = r.lastSeq)) with
    | none => exact absurd (decide_eq_true ⟨rfl, rfl⟩) (List.find?_eq_none.mp here r recent)
    | some r' =>
      have same : r'.firstSeq = r.firstSeq ∧ r'.lastSeq = r.lastSeq := by simpa using List.find?_some here
      exact congrArg some (distinct.apart r' (List.mem_of_find?_eq_some here) r recent same.1 same.2)
  · intro slot nonneg
    rw [← mem_slots, follows.slots, mem_keepLast_blanks nonneg, lastFive_inOrder order]

theorem retry_duplicate (streams : Streams s pid epoch total sent (some t)) (small : total < 2 ^ 31)
    (timely : now - t ≤ producerIdExpirationMs) {r : SentBatch} (recent : r ∈ keepLast idempotenceRingSize sent) :
    (s.validate now pid epoch r.firstSeq r.lastSeq).2 = .duplicate r.baseOffset := by
  cases streams with
  | sent log entry positive follows order =>
    have bounds := order.bounded r (mem_of_mem_keepLast recent)
    have current : IdempotenceState.expired log now = false := by
      rw [not_expired, follows.lastTimestamp]
      exact timely
    have next : wrapSigned 32 (log.lastSeq + 1) = total := by
      rw [follows.lastSeq, Int.sub_add_cancel, wrapSigned_natCast (by decide) small]
    unfold IdempotenceState.validate
    rw [entry]
    dsimp only
    rw [current, if_neg (by decide), follows.lastEpoch, if_neg (by omega), if_neg (by omega), if_neg, next,
      if_neg (by omega), lookupRing_recent follows order recent]
    rintro (continues | ⟨_, maximum⟩)
    · rw [next] at continues
      omega
    · rw [follows.lastSeq] at maximum
      omega

/-- The batch that takes the last number is not recognised, and no batch is after an hour. -/
theorem retry_not_duplicate (entry : s.producers pid = some log) (follows : Follows5 log epoch lastSeq sent t)
    {last' baseOffset : Int} (nonneg : 0 ≤ firstSeq)
    (lost : ¬ now - t ≤ producerIdExpirationMs ∨ wrapSigned 32 (lastSeq + 1) < 0) :
    (s.validate now pid epoch firstSeq last').2 ≠ .duplicate baseOffset := by
  unfold IdempotenceState.validate
  rw [entry]
  dsimp only
  split
  · exact unknown_not_duplicate firstSeq baseOffset
  · rename_i current
    have early : now - t ≤ producerIdExpirationMs := by
      rw [← follows.lastTimestamp, ← not_expired]
      exact Bool.eq_false_of_not_eq_true current
    have past := lost.resolve_left fun late => late early
    rw [follows.lastEpoch, if_neg (by omega), if_neg (by omega), follows.lastSeq]
    split
    · rintro ⟨⟩
    · rw [if_pos (by omega)]
      rintro ⟨⟩

theorem deduplicated_of (stream : List StreamBatch) : ∀ {s : IdempotenceState} {total : Nat} {sent : List SentBatch}
    {last : Option Int}, Streams s pid epoch total sent last → Timely last stream → total + totalCount stream < 2 ^ 31 →
    Deduplicated pid epoch total sent s stream := by
  induction stream with
  | nil => intros; trivial
  | cons b later ih =>
    intro s total sent last streams timely small
    obtain ⟨soon, retried, timely⟩ := timely
    have sum : totalCount (b :: later) = b.count + totalCount later := by
      simp [totalCount]
    rw [sum] at small
    obtain ⟨fresh, log, entry, follows⟩ := handle_fresh streams (by omega) b soon
    have next := streams_next streams b (by omega) entry follows
    refine ⟨fresh, ?_, ih next timely (by omega)⟩
    intro r recent
    exact retry_duplicate next (by omega) retried recent

theorem deduplicated_only (stream : List StreamBatch) : ∀ {s : IdempotenceState} {total : Nat} {sent : List SentBatch}
    {last : Option Int}, Streams s pid epoch total sent last → total < 2 ^ 31 →
    Deduplicated pid epoch total sent s stream → Timely last stream ∧ total + totalCount stream < 2 ^ 31 := by
  induction stream with
  | nil =>
    intro s total sent last _ small _
    exact ⟨trivial, by simpa [totalCount] using small⟩
  | cons b later ih =>
    rintro s total sent last streams small ⟨fresh, duplicates, rest⟩
    have soon : ∀ t ∈ last, b.validated - t ≤ producerIdExpirationMs := by
      intro t recorded
      by_contra late
      exact handle_late streams small b recorded late fresh
    obtain ⟨_, log, entry, follows⟩ := handle_fresh streams small b soon
    -- The batch that was just recorded comes again.
    have newest : b.sent epoch total ∈ keepLast idempotenceRingSize (sent ++ [b.sent epoch total]) := by
      rw [keepLast_append, List.mem_append]
      right
      rw [keepLast_of_le (show [b.sent epoch total].length ≤
        idempotenceRingSize from (by decide : 1 ≤ idempotenceRingSize))]
      exact List.mem_singleton_self _
    have again := duplicates (b.sent epoch total) newest
    have first := sent_firstSeq b epoch small
    have early : b.retried - b.recorded ≤ producerIdExpirationMs := by
      by_contra late
      exact retry_not_duplicate entry follows (by rw [first]; omega) (.inl late) again
    have below : total + b.count < 2 ^ 31 := by
      by_contra past
      have fits := b.fits
      refine retry_not_duplicate entry follows (by rw [first]; omega) (.inr ?_) again
      rw [sent_lastSeq b epoch small, wrapSigned_add, Int.sub_add_cancel]
      unfold wrapSigned signed unsigned
      split <;> omega
    obtain ⟨timely, sum⟩ := ih (streams_next streams b below entry follows) below rest
    refine ⟨⟨soon, early, timely⟩, ?_⟩
    have whole : totalCount (b :: later) = b.count + totalCount later := by
      simp [totalCount]
    omega

/-- The state follows a stream exactly if no validation comes too late and the numbers stay below the maximum. -/
theorem stream_deduplicated_iff (s : IdempotenceState) (pid epoch : Int)
    (older : ∀ log, s.producers pid = some log → log.lastEpoch < epoch) (stream : List StreamBatch) :
    Deduplicated pid epoch 0 [] s stream ↔ Timely none stream ∧ totalCount stream < 2 ^ 31 := by
  have start : Streams s pid epoch 0 [] none := .unsent older
  constructor
  · intro works
    obtain ⟨timely, sum⟩ := deduplicated_only stream start (by decide) works
    exact ⟨timely, by omega⟩
  · rintro ⟨timely, sum⟩
    exact deduplicated_of stream start timely (by omega)

def instantly (count : Nat) (positive : 1 ≤ count) (fits : count < 2 ^ 31) (baseOffset : Int) : StreamBatch :=
  ⟨count, positive, fits, baseOffset, 0, 0, 0⟩

def upToMaximum : StreamBatch := instantly (2 ^ 31 - 1) (by decide) (by decide) 0

theorem stream_deduplicated_three : Deduplicated 7 0 0 [] .empty
    [instantly 1 (by decide) (by decide) 0, instantly 2 (by decide) (by decide) 1,
      instantly 3 (by decide) (by decide) 3] :=
  (stream_deduplicated_iff .empty 7 0 (fun _ none => by cases none) _).mpr
    ⟨by simp [Timely, instantly]; decide, by decide⟩

/-- The batch that ends with the maximum is fresh, but when it comes again it is out of order. A batch that goes over
the maximum is fresh too, and the one after it is out of order. -/
theorem stream_stops_at_maximum :
    ¬ Deduplicated 7 0 0 [] .empty [upToMaximum, instantly 1 (by decide) (by decide) 2147483647] ∧
    (let first := IdempotenceState.empty.handle 7 (upToMaximum.sent 0 0) 0 0
     let last := (instantly 1 (by decide) (by decide) 2147483647).sent 0 2147483647
     (first.1.handle 7 last 0 0).2 = .fresh ∧
     ((first.1.handle 7 last 0 0).1.validate 0 7 0 last.firstSeq last.lastSeq).2 =
       .rejected errOutOfOrderSequenceNumber) ∧
    (let first := IdempotenceState.empty.handle 7 (upToMaximum.sent 0 0) 0 0
     let second := first.1.handle 7 ((instantly 2 (by decide) (by decide) 2147483647).sent 0 2147483647) 0 0
     second.2 = .fresh ∧
     (second.1.handle 7 ((instantly 1 (by decide) (by decide) 2147483649).sent 0 2147483649) 0 0).2 =
       .rejected errOutOfOrderSequenceNumber) := by
  refine ⟨?_, by decide +kernel, by decide +kernel⟩
  rintro ⟨_, _, _, again, _⟩
  have last := again ((instantly 1 (by decide) (by decide) 2147483647).sent 0 2147483647) (by decide +kernel)
  exact absurd last (by decide +kernel)

end KafGo.Coordinator
