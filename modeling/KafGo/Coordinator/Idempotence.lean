import KafGo.Lib.Bytes

/-!
The deduplication state of a partition: for each producer the last sequence and epoch and a ring of its
last five batches. `Validate` and `Record` each hold the lock of the state, but not from one to the other.
-/

namespace KafGo.Coordinator
open Lib

def idempotenceRingSize : Nat := 5
def producerIdExpirationMs : Int := 60 * 60 * 1000

def errDuplicateSequenceNumber : Int := 45
def errInvalidProducerEpoch : Int := 46
def errUnknownProducerId : Int := 59
def errOutOfOrderSequenceNumber : Int := 90

structure ProducerRingSlot where
  firstSeq : Int
  lastSeq : Int
  baseOffset : Int
  leaderEpoch : Int
  deriving DecidableEq, Repr

structure ProducerBatchLog where
  lastSeq : Int
  lastOffset : Int
  lastEpoch : Int
  lastLeaderEpoch : Int
  lastTimestamp : Int
  ring : Vector ProducerRingSlot idempotenceRingSize
  ringHead : Fin idempotenceRingSize
  deriving DecidableEq, Repr

structure IdempotenceState where
  producers : Int → Option ProducerBatchLog

/-- The answers of `Validate`. A duplicate carries the base offset of the earlier batch. -/
inductive Verdict where
  | fresh
  | duplicate (baseOffset : Int)
  | rejected (code : Int)
  deriving DecidableEq, Repr

def newProducerBatchLog (epoch : Int) : ProducerBatchLog where
  lastSeq := -1
  lastOffset := 0
  lastEpoch := epoch
  lastLeaderEpoch := -1
  lastTimestamp := 0
  ring := Vector.replicate idempotenceRingSize ⟨-1, 0, 0, 0⟩
  ringHead := ⟨0, by decide⟩

def ProducerRingSlot.holds (slot : ProducerRingSlot) (firstSeq lastSeq : Int) : Bool :=
  decide (0 ≤ slot.firstSeq ∧ slot.firstSeq = firstSeq ∧ slot.lastSeq = lastSeq)

def lookupRing (prod : ProducerBatchLog) (firstSeq lastSeq : Int) : Option Int :=
  (prod.ring.toList.find? (fun slot => slot.holds firstSeq lastSeq)).map (·.baseOffset)

def Follows (lastSeq firstSeq : Int) : Prop :=
  firstSeq = wrapSigned 32 (lastSeq + 1) ∨ (firstSeq = 0 ∧ lastSeq = 2 ^ 31 - 1)

instance (lastSeq firstSeq : Int) : Decidable (Follows lastSeq firstSeq) :=
  inferInstanceAs (Decidable (_ ∨ _))

namespace IdempotenceState

def empty : IdempotenceState := ⟨fun _ => none⟩

def delete (s : IdempotenceState) (pid : Int) : IdempotenceState :=
  ⟨Function.update s.producers pid none⟩

def expired (prod : ProducerBatchLog) (now : Int) : Bool :=
  decide (now - prod.lastTimestamp > producerIdExpirationMs)

def validateUnknown (firstSeq : Int) : Verdict :=
  if firstSeq ≠ 0 then .rejected errUnknownProducerId else .fresh

def validate (s : IdempotenceState) (now pid epoch firstSeq lastSeq : Int) : IdempotenceState × Verdict :=
  match s.producers pid with
  | none => (s, validateUnknown firstSeq)
  | some prod =>
    if expired prod now then (s.delete pid, validateUnknown firstSeq)
    else if epoch < prod.lastEpoch then (s, .rejected errInvalidProducerEpoch)
    else if epoch > prod.lastEpoch then
      if firstSeq ≠ 0 then (s, .rejected errOutOfOrderSequenceNumber)
      -- The entry goes before anything of the new epoch is in the log.
      else (s.delete pid, .fresh)
    else if Follows prod.lastSeq firstSeq then (s, .fresh)
    else if firstSeq > wrapSigned 32 (prod.lastSeq + 1) then (s, .rejected errOutOfOrderSequenceNumber)
    else match lookupRing prod firstSeq lastSeq with
      | some cached => (s, .duplicate cached)
      | none => (s, .rejected errDuplicateSequenceNumber)

def recorded (prod : ProducerBatchLog) (now epoch firstSeq lastSeq baseOff : Int) : ProducerBatchLog :=
  { prod with
    lastEpoch := epoch
    lastSeq := lastSeq
    lastOffset := wrapSigned 64 (baseOff + wrapSigned 32 (lastSeq - firstSeq))
    lastTimestamp := now
    ring := prod.ring.set prod.ringHead ⟨firstSeq, lastSeq, baseOff, -1⟩
    ringHead := ⟨(prod.ringHead + 1) % idempotenceRingSize, Nat.mod_lt _ (by decide)⟩ }

def record (s : IdempotenceState) (now pid epoch firstSeq lastSeq baseOff : Int) : IdempotenceState :=
  let prod := (s.producers pid).getD (newProducerBatchLog epoch)
  ⟨Function.update s.producers pid (some (recorded prod now epoch firstSeq lastSeq baseOff))⟩

/-! ### What a validation can do -/

variable {s s' : IdempotenceState} {now pid epoch firstSeq lastSeq other : Int}

/-- A batch accepted as fresh starts a producer or an epoch, or continues the last batch. Nothing else
changes the state, except that expired entries and entries of an older epoch go. -/
theorem validate_cases {verdict : Verdict} (result : s.validate now pid epoch firstSeq lastSeq = (s', verdict))
    (current : ∀ prod, s.producers pid = some prod → expired prod now = false) :
    (verdict ≠ .fresh ∧ s' = s) ∨
      (verdict = .fresh ∧ s' = s ∧ s.producers pid = none ∧ firstSeq = 0) ∨
      (verdict = .fresh ∧ s' = s ∧ ∃ prod, s.producers pid = some prod ∧ epoch = prod.lastEpoch ∧
        Follows prod.lastSeq firstSeq) ∨
      (verdict = .fresh ∧ s' = s.delete pid ∧ firstSeq = 0 ∧
        ∃ prod, s.producers pid = some prod ∧ prod.lastEpoch < epoch) := by
  unfold validate at result
  cases entry : s.producers pid with
  | none =>
    rw [entry] at result
    obtain ⟨rfl, rfl⟩ := Prod.mk.inj result
    unfold validateUnknown
    by_cases zero : firstSeq = 0
    · exact Or.inr (Or.inl ⟨if_neg (by simpa using zero), rfl, rfl, zero⟩)
    · exact Or.inl ⟨by rw [if_pos zero]; nofun, rfl⟩
  | some prod =>
    rw [entry] at result
    dsimp only at result
    rw [current prod entry, if_neg (by decide)] at result
    split at result
    · obtain ⟨rfl, rfl⟩ := Prod.mk.inj result
      exact Or.inl ⟨nofun, rfl⟩
    · split at result
      · rename_i newer
        split at result
        · obtain ⟨rfl, rfl⟩ := Prod.mk.inj result
          exact Or.inl ⟨nofun, rfl⟩
        · rename_i zero
          obtain ⟨rfl, rfl⟩ := Prod.mk.inj result
          exact Or.inr (Or.inr (Or.inr ⟨rfl, rfl, by simpa using zero, prod, rfl, by omega⟩))
      · split at result
        · rename_i follows
          obtain ⟨rfl, rfl⟩ := Prod.mk.inj result
          exact Or.inr (Or.inr (Or.inl ⟨rfl, rfl, prod, rfl, by omega, follows⟩))
        · split at result
          · obtain ⟨rfl, rfl⟩ := Prod.mk.inj result
            exact Or.inl ⟨nofun, rfl⟩
          · split at result <;> obtain ⟨rfl, rfl⟩ := Prod.mk.inj result <;> exact Or.inl ⟨nofun, rfl⟩

theorem validate_duplicate {cached : Int}
    (result : s.validate now pid epoch firstSeq lastSeq = (s', .duplicate cached)) :
    s' = s ∧ ∃ prod, s.producers pid = some prod ∧ lookupRing prod firstSeq lastSeq = some cached := by
  have unknown : ∀ firstSeq, validateUnknown firstSeq ≠ .duplicate cached := by
    intro firstSeq
    unfold validateUnknown
    split <;> nofun
  unfold validate at result
  split at result
  · exact absurd (Prod.mk.inj result).2 (unknown _)
  · rename_i prod entry
    split at result
    · exact absurd (Prod.mk.inj result).2 (unknown _)
    · repeat' split at result
      case h_1 base found =>
        obtain ⟨rfl, same⟩ := Prod.mk.inj result
        exact ⟨rfl, prod, entry, by rw [found, Verdict.duplicate.inj same]⟩
      all_goals cases (Prod.mk.inj result).2

theorem record_same (s : IdempotenceState) (now pid epoch firstSeq lastSeq baseOff : Int) :
    ∃ prod, (s.record now pid epoch firstSeq lastSeq baseOff).producers pid = some prod ∧
      prod.lastEpoch = epoch ∧ prod.lastSeq = lastSeq :=
  ⟨_, Function.update_self _ _ _, rfl, rfl⟩

theorem record_other (s : IdempotenceState) {baseOff : Int} (apart : other ≠ pid) :
    (s.record now pid epoch firstSeq lastSeq baseOff).producers other = s.producers other :=
  Function.update_of_ne apart _ _

theorem delete_same (s : IdempotenceState) (pid : Int) : (s.delete pid).producers pid = none :=
  Function.update_self _ _ _

theorem delete_other (s : IdempotenceState) (apart : other ≠ pid) :
    (s.delete pid).producers other = s.producers other :=
  Function.update_of_ne apart _ _

theorem validate_other {verdict : Verdict} (result : s.validate now pid epoch firstSeq lastSeq = (s', verdict))
    (apart : other ≠ pid) :
    s'.producers other = s.producers other := by
  have unchanged : s' = s ∨ s' = s.delete pid := by
    unfold validate at result
    split at result
    · exact Or.inl (Prod.mk.inj result).1.symm
    · repeat' split at result
      all_goals first
        | exact Or.inl (Prod.mk.inj result).1.symm
        | exact Or.inr (Prod.mk.inj result).1.symm
  rcases unchanged with rfl | rfl
  · rfl
  · exact s.delete_other apart

theorem validate_keeps_iff (current : ∀ log, s.producers pid = some log → expired log now = false) :
    (s.validate now pid epoch firstSeq lastSeq).1 = s ↔
      ¬ ∃ log, s.producers pid = some log ∧ log.lastEpoch < epoch ∧ firstSeq = 0 := by
  constructor
  · rintro same ⟨log, entry, newer, rfl⟩
    have dropped : (s.validate now pid epoch 0 lastSeq).1 = s.delete pid := by
      unfold validate
      rw [entry]
      dsimp only
      rw [current log entry, if_neg (by decide), if_neg (by omega), if_pos newer, if_neg (by decide)]
    rw [← same, dropped, delete_same] at entry
    cases entry
  · intro older
    rcases validate_cases (Prod.mk.eta.symm : s.validate now pid epoch firstSeq lastSeq = (_, _)) current with
      ⟨_, same⟩ | ⟨_, same, _⟩ | ⟨_, same, _⟩ | ⟨_, _, zero, log, entry, newer⟩
    · exact same
    · exact same
    · exact same
    · exact absurd ⟨log, entry, newer, zero⟩ older

end IdempotenceState

end KafGo.Coordinator
