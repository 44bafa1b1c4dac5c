import KafGo.Partition.Steps

/-!
# Produce requests that fail

Validation and recording of a batch are two calls with the append between them, and the first one drops an
entry of an older epoch.
-/

namespace KafGo.Partition
open Lib Coordinator Protocol Storage

def Task.errorCode : Task → Option Int
  | .rejected code => some code
  | .answered _ r => some r.errorCode
  | _ => none

def Leader.admits (s : Leader) (q : ProduceRequest) : Bool :=
  validateValidAcks q.acks && decide (s.ps.leaderBrokerID = s.brokerID) &&
    !(decide (q.acks = ackExactlyOnce) && s.underMinISR)

/-- The request gets to the validation of the batch `d`. -/
structure Leader.Sequences (snappy : Bytes → Option Bytes) (s : Leader) (q : ProduceRequest) (d : Produce) : Prop where
  admitted : s.admits q = true
  records : q.records = some d.raw
  decoded : decodeRecordBatch snappy d.raw = .ok d.batch
  acks : d.acks = q.acks
  idempotent : 0 ≤ d.pid

/-- It gets there with the first batch of a newer epoch of a known producer. -/
def Leader.Supersedes (snappy : Bytes → Option Bytes) (s : Leader) (q : ProduceRequest) : Prop :=
  ∃ d log, s.Sequences snappy q d ∧ s.idempotence.producers d.pid = some log ∧ log.lastEpoch < d.epoch ∧ d.firstSeq = 0

variable {snappy : Bytes → Option Bytes} {env : Env} {s s' : Leader} {q : ProduceRequest} {d : Produce} {t : Task}

theorem sequences_unique {d' : Produce} (one : s.Sequences snappy q d) (other : s.Sequences snappy q d') : d = d' := by
  obtain ⟨acks, raw, batch⟩ := d
  obtain ⟨acks', raw', batch'⟩ := d'
  obtain rfl : raw = raw' := Option.some.inj (one.records.symm.trans other.records)
  obtain rfl : batch = batch' := Except.ok.inj (one.decoded.symm.trans other.decoded)
  obtain rfl : acks = acks' := one.acks.trans other.acks.symm
  rfl

theorem admits_iff : s.admits q = true ↔ validateValidAcks q.acks = true ∧ s.ps.leaderBrokerID = s.brokerID ∧
    ¬ (q.acks = ackExactlyOnce ∧ s.underMinISR = true) := by
  simp [Leader.admits, and_assoc, imp_iff_not_or]

theorem arrive_sequences (sequences : s.Sequences snappy q d) : s.arrive snappy q = (s, .validate d) := by
  obtain ⟨valid, leads, replicated⟩ := admits_iff.mp sequences.admitted
  have same : (⟨q.acks, d.raw, d.batch⟩ : Produce) = d := by rw [← sequences.acks]
  unfold Leader.arrive
  rw [if_neg (by simp [valid]), if_neg (by simp [leads]), if_neg replicated, sequences.records]
  dsimp only
  rw [sequences.decoded]
  dsimp only
  rw [same, if_pos sequences.idempotent]

theorem arrive_cases (result : s.arrive snappy q = (s', t)) :
    (s' = s ∧ ∃ d, t = .validate d ∧ s.Sequences snappy q d) ∨
      ((∀ d, t ≠ .validate d) ∧ s'.idempotence = s.idempotence ∧ s'.stored = s.stored) := by
  have refused : ∀ code, (s, Task.rejected code) = (s', t) →
      (∀ d, t ≠ .validate d) ∧ s'.idempotence = s.idempotence ∧ s'.stored = s.stored := by
    intro code same
    obtain ⟨rfl, rfl⟩ := Prod.mk.inj same
    exact ⟨by simp, rfl, rfl⟩
  unfold Leader.arrive at result
  split at result
  · exact Or.inr (refused _ result)
  · split at result
    · exact Or.inr (refused _ result)
    · split at result
      · exact Or.inr (refused _ result)
      · split at result
        · exact Or.inr (refused _ result)
        · split at result
          · obtain ⟨rfl, rfl⟩ := Prod.mk.inj result
            exact Or.inr ⟨by simp, rfl, rfl⟩
          · exact Or.inr (refused _ result)
          · rename_i valid leads replicated _ raw records _ batch decoded
            obtain ⟨rfl, rfl⟩ := Prod.mk.inj result
            split
            · rename_i idempotent
              refine Or.inl ⟨rfl, _, rfl, ?_, records, decoded, rfl, idempotent⟩
              exact admits_iff.mpr ⟨by simpa using valid, by simpa using leads, replicated⟩
            · exact Or.inr ⟨by simp, rfl, rfl⟩

/-! ### Running alone -/

theorem trans_stored {t' : Task} (rule : Trans env s t s' t') : s.stored.length ≤ s'.stored.length := by
  cases rule <;> simp [Leader.record]

theorem alone_stored {t' : Task} (ran : Alone (leaderSystem snappy) env s t s' t') :
    s.stored.length ≤ s'.stored.length := by
  induction ran with
  | here => exact Nat.le_refl _
  | next moves _ ih => exact Nat.le_trans (trans_stored (system_trans moves).2) ih

theorem ended_alone {code : Int} {t' : Task} (ended : t.errorCode = some code)
    (ran : Alone (leaderSystem snappy) env s t s' t') : s' = s := by
  cases t with
  | rejected | answered =>
    cases ran with
    | here => rfl
    | next moves _ => cases (system_trans moves).2 <;> contradiction
  | _ => cases ended

theorem append_alone {code : Int} (ran : Alone (leaderSystem snappy) env s (.append d) s' t)
    (ended : t.errorCode = some code) (unstored : s'.stored = s.stored) : s'.idempotence = s.idempotence := by
  cases ran with
  | here => cases ended
  | next moves rest =>
    have rule := (system_trans moves).2
    cases rule with
    | unstored => rw [ended_alone rfl rest]
    | stored =>
      have grown := alone_stored rest
      rw [unstored, List.length_append] at grown
      simp at grown
    | stuck _ _ here | managed _ _ here | removed _ _ here | added _ _ here | idled _ here => cases here

theorem validate_alone {code : Int} (ran : Alone (leaderSystem snappy) env s (.validate d) s' t)
    (ended : t.errorCode = some code) (unstored : s'.stored = s.stored) :
    s'.idempotence = (s.idempotence.validate env.now d.pid d.epoch d.firstSeq d.lastSeq).1 := by
  cases ran with
  | here => cases ended
  | next moves rest =>
    have rule := (system_trans moves).2
    cases rule with
    | invalid _ _ _ idempotence result | duplicate _ _ idempotence result => rw [ended_alone rfl rest, result]
    | accepted _ idempotence result =>
      rw [append_alone rest ended unstored, result]
    | stuck _ _ here | managed _ _ here | removed _ _ here | added _ _ here | idled _ here => cases here

theorem arrive_alone {code : Int} (ran : Alone (leaderSystem snappy) env s (.arrive q) s' t)
    (ended : t.errorCode = some code) (unstored : s'.stored = s.stored) :
    (∃ d, s.Sequences snappy q d ∧
        s'.idempotence = (s.idempotence.validate env.now d.pid d.epoch d.firstSeq d.lastSeq).1) ∨
      ((∀ d, ¬ s.Sequences snappy q d) ∧ s'.idempotence = s.idempotence) := by
  cases ran with
  | here => cases ended
  | @next _ s₁ _ _ t₁ _ moves rest =>
    have arrives : s.arrive snappy q = (s₁, t₁) := Option.some.inj (system_step.mp moves).2.2
    rcases arrive_cases arrives with ⟨rfl, d, rfl, sequences⟩ | ⟨elsewhere, same, stored⟩
    · exact Or.inl ⟨d, sequences, validate_alone rest ended unstored⟩
    · refine Or.inr ⟨?_, ?_⟩
      · intro d sequences
        have validates := arrive_sequences sequences
        rw [arrives] at validates
        exact elsewhere d (Prod.mk.inj validates).2
      · have rule := arrive_trans snappy env s q
        rw [arrives] at rule
        rw [← same]
        cases rule with
        | refused => rw [ended_alone rfl rest]
        | undecodable =>
          cases rest with
          | here => rfl
          | next moves _ => cases (system_trans moves).2 <;> contradiction
        | sequenced _ d => exact absurd rfl (elsewhere d)
        | unsequenced => exact append_alone rest ended unstored
        | stuck _ _ here | managed _ _ here | removed _ _ here | added _ _ here | idled _ here => cases here

/-- A request that ends without having stored its batch leaves the deduplication state as it was, unless it
got to the validation of the first batch of a newer epoch of a known producer. -/
theorem unstored_produce_keeps_iff {snappy : Bytes → Option Bytes} {env : Env} {s s' : Leader} {q : ProduceRequest}
    {t : Task} {code : Int}
    (current : ∀ pid log, s.idempotence.producers pid = some log → IdempotenceState.expired log env.now = false)
    (ran : Alone (leaderSystem snappy) env s (.arrive q) s' t) (ended : t.errorCode = some code)
    (unstored : s'.stored = s.stored) : s'.idempotence = s.idempotence ↔ ¬ s.Supersedes snappy q := by
  rcases arrive_alone ran ended unstored with ⟨d, sequences, validated⟩ | ⟨elsewhere, same⟩
  · rw [validated, IdempotenceState.validate_keeps_iff (current d.pid)]
    apply not_congr
    constructor
    · rintro ⟨log, entry, newer, first⟩
      exact ⟨d, log, sequences, entry, newer, first⟩
    · rintro ⟨d', log, sequences', entry, newer, first⟩
      obtain rfl := sequences_unique sequences sequences'
      exact ⟨log, entry, newer, first⟩
  · refine iff_of_true same ?_
    rintro ⟨d, _, sequences, _⟩
    exact elsewhere d sequences

def knownProducer (epoch : Int) : Leader :=
  { newPartition 1 [1] [1] none with idempotence := IdempotenceState.empty.record 0 7 epoch 0 0 0 }

def fullDisk : Env := ⟨0, false, false, some 0⟩

/-- The write of the next batch fails, and the state stays. -/
theorem unstored_produce_keeps_next : ∃ s' t, Alone (leaderSystem fun _ => none) fullDisk (knownProducer 1)
    (.arrive ⟨1, some (soloBatch 7 1 1)⟩) s' t ∧ t.errorCode = some errKafkaStorageError ∧
      s'.idempotence = (knownProducer 1).idempotence := by
  obtain ⟨s', t, ran, ends⟩ := runAlone_reaches (leaderSystem fun _ => none) fullDisk 3
    (s := knownProducer 1) (t := .arrive ⟨1, some (soloBatch 7 1 1)⟩)
    (fun s t => s.stored.isEmpty && decide (t.errorCode = some errKafkaStorageError)) (by decide +kernel)
  simp only [Bool.and_eq_true, List.isEmpty_iff, decide_eq_true_eq] at ends
  refine ⟨s', t, ran, ends.2, (unstored_produce_keeps_iff ?_ ran ends.2 ends.1).mpr ?_⟩
  · intro pid log entry
    by_cases known : pid = 7
    · subst known
      obtain rfl := Option.some.inj entry
      rfl
    · rw [knownProducer, IdempotenceState.record_other _ known] at entry
      cases entry
  · rintro ⟨d, _, sequences, _, _, first⟩
    have second : (decodeRecordBatch (fun _ => none) (soloBatch 7 1 1)).map RecordBatch.baseSequence = .ok 1 := by
      decide +kernel
    rw [Option.some.inj sequences.records, sequences.decoded] at second
    have same : d.firstSeq = 1 := Except.ok.inj second
    omega

/-- The write of the first batch of epoch 2 fails. Before, a retry of the stored batch of epoch 1 was a duplicate
and epoch 0 was fenced; now both would be stored. -/
theorem unstored_produce_unfences : ∃ s' t, Alone (leaderSystem fun _ => none) fullDisk (knownProducer 1)
    (.arrive ⟨1, some (soloBatch 7 2 0)⟩) s' t ∧ t.errorCode = some errKafkaStorageError ∧ s'.stored = [] ∧
      ((knownProducer 1).idempotence.validate 0 7 1 0 0).2 = .duplicate 0 ∧
      ((knownProducer 1).idempotence.validate 0 7 0 0 0).2 = .rejected errInvalidProducerEpoch ∧
      (s'.idempotence.validate 0 7 1 0 0).2 = .fresh ∧ (s'.idempotence.validate 0 7 0 0 0).2 = .fresh := by
  obtain ⟨s', t, ran, ends⟩ := runAlone_reaches (leaderSystem fun _ => none) fullDisk 3
    (s := knownProducer 1) (t := .arrive ⟨1, some (soloBatch 7 2 0)⟩)
    (fun s t => s.stored.isEmpty && decide (t.errorCode = some errKafkaStorageError ∧
      (s.idempotence.validate 0 7 1 0 0).2 = .fresh ∧ (s.idempotence.validate 0 7 0 0 0).2 = .fresh))
    (by decide +kernel)
  simp only [Bool.and_eq_true, List.isEmpty_iff, decide_eq_true_eq] at ends
  exact ⟨s', t, ran, ends.2.1, ends.1, by decide, by decide, ends.2.2⟩

end KafGo.Partition
