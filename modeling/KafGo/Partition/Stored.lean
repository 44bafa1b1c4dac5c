import KafGo.Partition.Acks

/-!
# Acknowledged batches are stored

A success answered for acks=1 or acks=-1 names the offset at which the batch is stored, or an earlier batch with the
same sequence numbers of the same producer. Its bytes are in the log and stay there.
-/

namespace KafGo.Partition
open Lib Coordinator Protocol Storage

def After.produce : After → Option Produce
  | .respond d _ => some d
  | .checkMinISR | .finished => none

def Task.produce : Task → Option Produce
  | .validate d | .append d | .record d _ | .raise d _ | .respond d _ | .readHWM d _ _ | .complete d _ _ _
  | .await d _ _ | .answered d _ => some d
  | .advance next | .wake _ next => next.produce
  | _ => none

/-- The request `d` repeats `d'`, as far as the ring of a producer can tell. -/
structure Produce.Repeats (d d' : Produce) : Prop where
  pid : d'.pid = d.pid
  firstSeq : d'.firstSeq = d.firstSeq
  lastSeq : d'.lastSeq = d.lastSeq

def Backs (stored : List (Produce × Int)) (d : Produce) (base : Int) : Prop :=
  ∃ d', (d', base) ∈ stored ∧ (d' = d ∨ d.Repeats d')

/-- What a handler is about to acknowledge, or has acknowledged, is stored. -/
def Task.Backed (stored : List (Produce × Int)) : Task → Prop
  | .record d base | .raise d base | .respond d base | .readHWM d base _ | .complete d base _ _ | .await d base _
  | .advance (.respond d base) | .wake _ (.respond d base) => (d, base) ∈ stored
  | .answered d r => d.acks ≠ ackAtMostOnce → r.errorCode = 0 → Backs stored d r.baseOffset
  | _ => True

/-- The slots of the rings are about stored batches. -/
def RingsBacked (s : Leader) : Prop :=
  ∀ pid prod, s.idempotence.producers pid = some prod → ∀ slot ∈ prod.ring.toList, 0 ≤ slot.firstSeq →
    ∃ d, (d, slot.baseOffset) ∈ s.stored ∧ d.pid = pid ∧ d.firstSeq = slot.firstSeq ∧ d.lastSeq = slot.lastSeq

variable {now : Int} {s : Leader} {d : Produce}

theorem validate_kept {s s' : IdempotenceState} {pid epoch firstSeq lastSeq : Int} {verdict : Verdict}
    (result : s.validate now pid epoch firstSeq lastSeq = (s', verdict)) {other : Int} {prod : ProducerBatchLog}
    (entry : s'.producers other = some prod) : s.producers other = some prod := by
  by_cases same : other = pid
  · subst same
    unfold IdempotenceState.validate at result
    repeat' split at result
    all_goals
      rw [← (Prod.mk.inj result).1] at entry
      first
        | exact entry
        | rw [IdempotenceState.delete_same] at entry
          cases entry
  · rwa [IdempotenceState.validate_other result same] at entry

theorem validated_rings {idempotence : IdempotenceState} {verdict : Verdict}
    (result : s.idempotence.validate now d.pid d.epoch d.firstSeq d.lastSeq = (idempotence, verdict))
    (backed : RingsBacked s) : RingsBacked { s with idempotence := idempotence } :=
  fun pid prod entry => backed pid prod (validate_kept result entry)

theorem mem_recorded {prod : ProducerBatchLog} {epoch firstSeq lastSeq base : Int} {slot : ProducerRingSlot}
    (member : slot ∈ (IdempotenceState.recorded prod now epoch firstSeq lastSeq base).ring.toList) :
    slot ∈ prod.ring.toList ∨ slot = ⟨firstSeq, lastSeq, base, -1⟩ := by
  simp only [IdempotenceState.recorded, Vector.toList_set] at member
  exact List.mem_or_eq_of_mem_set member

theorem recorded_rings {base : Int} (backed : RingsBacked s) (stored : (d, base) ∈ s.stored) :
    RingsBacked (s.record now d base) := by
  intro pid prod entry slot member used
  by_cases same : pid = d.pid
  · subst same
    have recorded : IdempotenceState.recorded ((s.idempotence.producers d.pid).getD
      (newProducerBatchLog d.epoch)) now d.epoch
        d.firstSeq d.lastSeq base = prod := by
      have updated : Function.update s.idempotence.producers d.pid _ d.pid = some prod := entry
      rw [Function.update_self] at updated
      exact Option.some.inj updated
    rw [← recorded] at member
    rcases mem_recorded member with old | rfl
    · cases known : s.idempotence.producers d.pid with
      | none =>
        rw [known, Option.getD_none] at old
        have blank := List.eq_of_mem_replicate (by simpa [newProducerBatchLog] using old)
        rw [blank] at used
        exact absurd used (by decide)
      | some prod =>
        rw [known, Option.getD_some] at old
        exact backed d.pid prod known slot old used
    · exact ⟨d, stored, rfl, rfl, rfl⟩
  · have unchanged : (s.record now d base).idempotence.producers pid = s.idempotence.producers pid :=
      s.idempotence.record_other same
    rw [unchanged] at entry
    exact backed pid prod entry slot member used

theorem duplicate_backed {idempotence : IdempotenceState} {cached : Int}
    (result : s.idempotence.validate now d.pid d.epoch d.firstSeq d.lastSeq = (idempotence, .duplicate cached))
    (backed : RingsBacked s) : Backs s.stored d cached := by
  obtain ⟨_, prod, entry, ring⟩ := IdempotenceState.validate_duplicate result
  obtain ⟨slot, found, rfl⟩ := Option.map_eq_some_iff.mp ring
  have holds := List.find?_some found
  rw [ProducerRingSlot.holds, decide_eq_true_eq] at holds
  obtain ⟨used, first, last⟩ := holds
  obtain ⟨d', member, pid, first', last'⟩ := backed d.pid prod entry slot (List.mem_of_find?_eq_some found) used
  exact ⟨d', member, Or.inr ⟨pid, first'.trans first, last'.trans last⟩⟩

section Steps

variable {snappy : Bytes → Option Bytes} {env : Env} {s s' : Leader} {t t' : Task}

theorem trans_stored_mem (rule : Trans env s t s' t') {e : Produce × Int} (member : e ∈ s.stored) : e ∈ s'.stored := by
  cases rule
  case stored => exact List.mem_append_left _ member
  all_goals exact member

theorem backed_mono {stored later : List (Produce × Int)} (grows : ∀ e ∈ stored, e ∈ later) (t : Task)
    (backed : t.Backed stored) : t.Backed later := by
  cases t with
  | answered d r =>
    intro acks code
    obtain ⟨d', member, same⟩ := backed acks code
    exact ⟨d', grows _ member, same⟩
  | advance next | wake hwm next =>
    cases next with
    | respond d base => exact grows _ backed
    | _ => trivial
  | record | raise | respond | readHWM | complete | await => exact grows _ backed
  | _ => trivial

theorem backed_managing {stored : List (Produce × Int)} {t : Task} (manages : t.managing = true) : t.Backed stored := by
  cases t with
  | advance next =>
    cases next with
    | respond d base => cases manages
    | _ => trivial
  | _ => trivial

variable {d : Produce}

theorem respond_backed {s : Leader} {base : Int} (stored : (d, base) ∈ s.stored) :
    (s.respond d base).2.Backed s.stored := by
  unfold Leader.respond
  split
  · exact stored
  · split
    · rename_i none
      exact fun acks => absurd none acks
    · exact fun _ _ => ⟨d, stored, Or.inl rfl⟩

theorem step_backed (moves : step snappy env s t = some (s', t')) (rings : RingsBacked s) (backed : t.Backed s.stored) :
    t'.Backed s'.stored := by
  have responded : ∀ d base, t = .respond d base → t'.Backed s'.stored := by
    rintro d base rfl
    have answer := respond_backed backed
    have same : s.respond d base = (s', t') := Option.some.inj moves
    have kept : s'.stored = s.stored := by cases step_trans moves <;> rfl
    rwa [same, ← kept] at answer
  cases step_trans moves
  case invalid d code nonzero idempotence result => exact fun _ zero => absurd zero nonzero
  case duplicate d cached idempotence result =>
    have earlier := duplicate_backed result rings
    exact fun _ _ => earlier
  case unstored d code nonzero log next fails grows => exact fun _ zero => absurd zero nonzero
  case stored d log base result =>
    have member : (d, base) ∈ s.stored ++ [(d, base)] := by simp
    split <;> exact member
  case recorded d base => exact backed
  case raised d base => exact backed
  case parked d base acks => exact backed
  case unparked d base acks r => exact responded d base rfl
  case read d base w => exact backed
  case completed d base w hwm p result => exact backed
  case timedOut d base w => exact fun _ _ => ⟨d, backed, Or.inl rfl⟩
  case released d base w result => exact fun _ _ => ⟨d, backed, Or.inl rfl⟩
  case failed d base w code result => exact fun _ _ => ⟨d, backed, Or.inl rfl⟩
  case managed here manages => exact backed_managing manages
  case removed id here manages => exact backed_managing manages
  case added id here manages => exact backed_managing manages
  case advanced next higher => cases next <;> exact backed
  case unmoved next level => cases next <;> exact backed
  case woken hwm next p result => cases next <;> exact backed
  all_goals trivial

theorem trans_rings (rule : Trans env s t s' t') (rings : RingsBacked s) (backed : t.Backed s.stored) :
    RingsBacked s' := by
  cases rule
  case invalid result => exact validated_rings result rings
  case duplicate result => exact validated_rings result rings
  case accepted result => exact validated_rings result rings
  case stored d log base result =>
    intro pid prod entry slot member used
    obtain ⟨d', found, same⟩ := rings pid prod entry slot member used
    exact ⟨d', List.mem_append_left _ found, same⟩
  case recorded d base => exact recorded_rings rings backed
  all_goals exact rings

theorem trans_produce (rule : Trans env s t s' t') (works : t'.produce = some d) :
    t.produce = some d ∨ ∃ q, t = .arrive q := by
  have managing : ∀ {u : Task}, u.managing = true → u.produce ≠ some d := by
    intro u manages works
    cases u with
    | advance next =>
      cases next with
      | respond d base => cases manages
      | _ => cases works
    | wake hwm next => cases manages
    | _ => cases works <;> cases manages
  cases rule
  case sequenced q d pid => exact Or.inr ⟨q, rfl⟩
  case unsequenced q d pid => exact Or.inr ⟨q, rfl⟩
  case stored d log base result => split at works <;> exact Or.inl works
  case managed here manages => exact absurd works (managing manages)
  case removed id here manages => exact absurd works (managing manages)
  case added id here manages => exact absurd works (managing manages)
  case unmoved next level => cases next <;> exact Or.inl works
  case woken hwm next p result => cases next <;> exact Or.inl works
  all_goals first | exact Or.inl works | cases works

theorem arrive_decoded {q : ProduceRequest} (works : (s.arrive snappy q).2.produce = some d) :
    decodeRecordBatch snappy d.raw = .ok d.batch := by
  unfold Leader.arrive at works
  repeat' split at works
  all_goals first | cases works | skip
  rename_i raw _ _ batch decoded
  dsimp only at works
  split at works <;>
  · obtain rfl := Option.some.inj works
    exact decoded

def Decoded (snappy : Bytes → Option Bytes) (d : Produce) : Prop := decodeRecordBatch snappy d.raw = .ok d.batch

theorem step_decoded (moves : step snappy env s t = some (s', t'))
    (decoded : ∀ d, t.produce = some d → Decoded snappy d) :
    ∀ d, t'.produce = some d → Decoded snappy d := by
  intro d works
  rcases trans_produce (step_trans moves) works with before | ⟨q, rfl⟩
  · exact decoded d before
  · have same : s.arrive snappy q = (s', t') := Option.some.inj moves
    exact arrive_decoded (by rw [same]; exact works)

theorem repeats_count {d' : Produce} (decoded : Decoded snappy d) (decoded' : Decoded snappy d')
    (repeats : d.Repeats d') : d'.count = d.count := by
  have bound : ∀ {d : Produce}, Decoded snappy d → d.count < 2 ^ 31 := by
    intro d decoded
    have count : (d.count : Int) = int32At d.raw batchRecordCountOff := (decodeRecordBatch_ok decoded).2
    have fits := (int32At_fits d.raw batchRecordCountOff).2
    omega
  have small := bound decoded
  have small' := bound decoded'
  have last := repeats.lastSeq
  unfold Produce.lastSeq at last
  rw [repeats.firstSeq, wrapSigned_eq_iff] at last
  omega

theorem trans_stored_decoded (rule : Trans env s t s' t') (stored : ∀ e ∈ s.stored, Decoded snappy e.1)
    (decoded : ∀ d, t.produce = some d → Decoded snappy d) : ∀ e ∈ s'.stored, Decoded snappy e.1 := by
  cases rule
  case stored d log base result =>
    intro e member
    rcases List.mem_append.mp member with old | new
    · exact stored e old
    · rw [List.mem_singleton.mp new]
      exact decoded d rfl
  all_goals exact stored

theorem trans_content (rule : Trans env s t s' t') : s.log.content <+: s'.log.content := by
  cases rule
  case unstored d code nonzero log next fails grows => exact grows
  case stored d log base result =>
    have content := CommitLog.appendRaw_content result
    exact ⟨_, content.symm⟩
  all_goals exact List.prefix_rfl

def bytesAt (e : Produce × Int) : Bytes := putBaseOffset e.2 e.1.raw

theorem trans_written (rule : Trans env s t s' t') (written : ∀ e ∈ s.stored, bytesAt e <:+: s.log.content) :
    ∀ e ∈ s'.stored, bytesAt e <:+: s'.log.content := by
  have kept : ∀ e ∈ s.stored, bytesAt e <:+: s'.log.content :=
    fun e member => (written e member).trans (trans_content rule).isInfix
  cases rule
  case stored d log base result =>
    intro e member
    rcases List.mem_append.mp member with old | new
    · exact kept e old
    · rw [List.mem_singleton.mp new]
      exact ⟨s.log.content, [], by rw [List.append_nil]; exact (CommitLog.appendRaw_content result).symm⟩
  all_goals exact kept

end Steps

/-- The handlers of a run, with what they have stored and what the rings remember. -/
structure Keeps (snappy : Bytes → Option Bytes) (s : Leader) : Prop where
  rings : RingsBacked s
  stored : ∀ e ∈ s.stored, Decoded snappy e.1
  written : ∀ e ∈ s.stored, bytesAt e <:+: s.log.content

theorem run_backed {snappy : Bytes → Option Bytes} {allowed : Condition Leader Task Env} {c : Config Leader Task}
    (reached : Reachable (leaderSystem snappy) allowed c) :
    Keeps snappy c.shared ∧ ∀ t ∈ c.tasks, t.Backed c.shared.stored ∧ ∀ d, t.produce = some d → Decoded snappy d := by
  refine reachable_local (Keeps snappy) (fun s t => t.Backed s.stored ∧ ∀ d, t.produce = some d → Decoded snappy d)
    ?_ ?_ ?_ reached
  · intro s fresh
    have none : ∀ e, e ∉ s.stored := by
      intro e member
      rw [fresh.stored] at member
      cases member
    refine ⟨fun pid prod entry => ?_, fun e member => absurd member (none e), fun e member => absurd member (none e)⟩
    rw [fresh.idempotence] at entry
    cases entry
  · intro s t _ spawned
    cases spawned <;> exact ⟨trivial, fun d works => by cases works⟩
  · intro c i env t s' t' _ _ _ moves keeps own
    obtain ⟨up, rule⟩ := system_trans moves
    have stepped := (system_step.mp moves).2.2
    refine ⟨⟨trans_rings rule keeps.rings own.1, trans_stored_decoded rule keeps.stored own.2,
        trans_written rule keeps.written⟩,
      ⟨step_backed stepped keeps.rings own.1, step_decoded stepped own.2⟩, fun u _ old => ⟨?_, old.2⟩⟩
    exact backed_mono (fun e member => trans_stored_mem rule member) u old.1

/-- In every run, a success with acks=1 or acks=-1 names the base offset of a stored batch, whose bytes are in the log
with this offset: the batch of the request itself, or one with the same producer, sequence numbers and number of
records. -/
theorem acked_stored (snappy : Bytes → Option Bytes) (c : Config Leader Task) (reached : Run snappy c) (d : Produce)
    (r : PartitionResult) (answered : Task.answered d r ∈ c.tasks) (acks : d.acks ≠ ackAtMostOnce)
    (success : r.errorCode = 0) :
    ∃ d', (d', r.baseOffset) ∈ c.shared.stored ∧ putBaseOffset r.baseOffset d'.raw <:+: c.shared.log.content ∧
      d'.count = d.count ∧ (d' = d ∨ d'.pid = d.pid ∧ d'.firstSeq = d.firstSeq ∧ d'.lastSeq = d.lastSeq) := by
  obtain ⟨keeps, tasks⟩ := run_backed reached
  obtain ⟨backed, decoded⟩ := tasks _ answered
  obtain ⟨d', member, same⟩ := backed acks success
  have written := keeps.written (d', r.baseOffset) member
  refine ⟨d', member, written, ?_⟩
  rcases same with rfl | repeats
  · exact ⟨rfl, Or.inl rfl⟩
  · exact ⟨repeats_count (decoded d rfl) (keeps.stored _ member) repeats,
      Or.inr ⟨repeats.pid, repeats.firstSeq, repeats.lastSeq⟩⟩

def retryAnswered (c : Config Leader Task) : Bool :=
  match (c.tasks[1]? : Option Task) with
  | some (.answered d r) => decide (d.acks ≠ ackAtMostOnce ∧ r.errorCode = 0 ∧ c.shared.stored.length = 1)
  | _ => false

/-- A batch and its retry, which comes when the batch is committed. -/
theorem acked_stored_retry : ∃ c d r, Run (fun _ => none) c ∧ c.tasks[1]? = some (Task.answered d r) ∧
    c.shared.stored.length = 1 ∧ ∃ d', (d', r.baseOffset) ∈ c.shared.stored ∧
      putBaseOffset r.baseOffset d'.raw <:+: c.shared.log.content ∧ d'.count = d.count := by
  obtain ⟨c, reached, ends⟩ := exec_reaches (leaderSystem fun _ => none) unchecked_free
    (.spawn (.arrive ⟨-1, some (soloBatch 7 0 0)⟩) :: .spawn (.arrive ⟨-1, some (soloBatch 7 0 0)⟩) ::
      (List.replicate 11 (.act 0 calm) ++ List.replicate 2 (.act 1 calm)))
    retryAnswered (newPartition_fresh 1 [1] [1] none) (by simp [List.replicate]; exact Spawned.produce _)
      (by decide +kernel)
  unfold retryAnswered at ends
  split at ends
  · rename_i d r found
    obtain ⟨acks, success, one⟩ := of_decide_eq_true ends
    obtain ⟨d', member, bytes, count, _⟩ :=
      acked_stored (fun _ => none) c reached d r (List.mem_of_getElem? found) acks success
    exact ⟨c, d, r, reached, found, one, d', member, bytes, count⟩
  · cases ends

end KafGo.Partition
