import KafGo.Partition.Waiters

/-!
# Acknowledgements with acks=-1

A handler answers success on two ways out: its waiter was completed, or `Validate` found the batch in the
ring of the producer. The first implies that the batch is below the high watermark; the second does not look
at the high watermark at all.
-/

namespace KafGo.Partition
open Lib Coordinator Protocol Storage

/-- The cell a handler waits on asks for the last offset of its batch. -/
def Task.Waits (heap : List PartitionAppendWaiter) : Task → Prop
  | .readHWM d base w | .complete d base w _ | .await d base w =>
    ∃ cell, heap[w]? = some cell ∧ cell.requiredOffset = d.lastOffset base
  | _ => True

/-- An acknowledged batch lies below the high watermark. -/
def Task.Committed (hwm : Int) : Task → Prop
  | .answered d r => d.acks = ackExactlyOnce → r.errorCode = 0 → d.lastOffset r.baseOffset < hwm
  | _ => True

/-- A retry with acks=-1 that the ring recognises comes when the batch in the ring is below the high
watermark. -/
def Task.retryCommitted (s : Leader) : Task → Bool
  | .validate d =>
    match s.idempotence.producers d.pid with
    | none => true
    | some prod => match lookupRing prod d.firstSeq d.lastSeq with
      | none => true
      | some base => decide (d.acks = ackExactlyOnce → d.lastOffset base < s.ps.hwm)
  | _ => true

def retriesCommitted (c : Config Leader Task) (i : Nat) (_ : Env) : Bool :=
  match c.tasks[i]? with
  | none => true
  | some t => t.retryCommitted c.shared

def RetriesCommitted : Condition Leader Task Env := fun c i env => retriesCommitted c i env = true

variable {p : PartitionPurgatory} {t : Task} {hwm : Int} {w : Nat}

theorem waits_stable {p' : PartitionPurgatory} (changed : PurgatoryChange p t p') (wf : p.WellFormed) (u : Task)
    (waits : u.Waits p.heap) : u.Waits p'.heap := by
  cases u with
  | readHWM d base w | complete d base w hwm | await d base w =>
    obtain ⟨cell, found, required⟩ := waits
    obtain ⟨cell', found', same⟩ := change_cell changed wf found
    exact ⟨cell', found', same.trans required⟩
  | _ => trivial

theorem committed_mono {later : Int} (grows : hwm ≤ later) (t : Task) (committed : t.Committed hwm) :
    t.Committed later := by
  cases t with
  | answered d r => exact fun acks code => Int.lt_of_lt_of_le (committed acks code) grows
  | _ => trivial

theorem managing_neutral (manages : t.managing = true) (heap : List PartitionAppendWaiter) (hwm : Int) :
    t.Waits heap ∧ t.Committed hwm := by
  cases t <;> first | cases manages; done | exact ⟨trivial, trivial⟩

theorem trans_waits {env : Env} {s s' : Leader} {t' : Task} (rule : Trans env s t s' t') (wf : s.purgatory.WellFormed)
    (waits : t.Waits s.purgatory.heap) : t'.Waits s'.purgatory.heap := by
  cases rule
  case stored d log base result => split <;> trivial
  case parked d base acks =>
    refine ⟨⟨d.lastOffset base, .empty⟩, ?_, rfl⟩
    simp [PartitionPurgatory.add, PartitionPurgatory.fresh]
  case read d base w => exact waits
  case completed d base w hwm p result =>
    exact waits_stable (t := .wake hwm .finished) (.completed hwm rfl p result) wf (.await d base w) waits
  case woken hwm next p result => cases next <;> trivial
  case unmoved next level => cases next <;> trivial
  case managed here manages => exact (managing_neutral manages _ 0).1
  case removed id here manages => exact (managing_neutral manages _ 0).1
  case added id here manages => exact (managing_neutral manages _ 0).1
  all_goals trivial

theorem received_sent {cell : PartitionAppendWaiter} {r : Outcome} (guarded : Guarded p hwm)
    (found : p.heap[w]? = some cell) (received : cell.done.receive = some r) :
    r ∈ cell.done.sent := by
  rcases guarded.wf.settled w cell found with unset | ⟨v, one⟩
  · rw [unset] at received
    cases received
  · rw [one] at received ⊢
    obtain rfl : v = r := Option.some.inj received
    exact List.mem_singleton.mpr rfl

theorem received_completed {d : Produce} {base : Int} (guarded : Guarded p hwm)
    (waits : (Task.await d base w).Waits p.heap)
    (result : (p.heap[w]?).bind (fun cell => cell.done.receive) = some .completed) : d.lastOffset base < hwm := by
  obtain ⟨cell, found, required⟩ := waits
  rw [found, Option.bind_some] at result
  have below := guarded.completed w cell found (received_sent guarded found result)
  omega

theorem received_failed {code : Int} (guarded : Guarded p hwm)
    (result : (p.heap[w]?).bind (fun cell => cell.done.receive) = some (.failed code)) : code ≠ 0 := by
  obtain ⟨cell, found, received⟩ := Option.bind_eq_some_iff.mp result
  rw [guarded.failed w cell code found (received_sent guarded found received)]
  decide

theorem trans_committed {env : Env} {s s' : Leader} {t' : Task} (rule : Trans env s t s' t')
    (guarded : Guarded s.purgatory s.ps.hwm) (waits : t.Waits s.purgatory.heap) (retry : t.retryCommitted s = true)
    (committed : t.Committed s.ps.hwm) : t'.Committed s'.ps.hwm := by
  cases rule
  case invalid d code nonzero idempotence result => exact fun _ zero => absurd zero nonzero
  case duplicate d cached idempotence result =>
    obtain ⟨_, prod, entry, ring⟩ := IdempotenceState.validate_duplicate result
    simp only [Task.retryCommitted, entry, ring, decide_eq_true_eq] at retry
    exact fun acks _ => retry acks
  case unstored d code nonzero log next fails grows => exact fun _ zero => absurd zero nonzero
  case stored d log base result => split <;> trivial
  case unparked d base acks r => exact fun same _ => absurd same acks
  case timedOut d base w => exact fun _ zero => by cases zero
  case released d base w result => exact fun _ _ => received_completed guarded waits result
  case failed d base w code result => exact fun _ zero => absurd zero (received_failed guarded result)
  case managed here manages => exact (managing_neutral manages [] _).2
  case removed id here manages => exact (managing_neutral manages [] _).2
  case added id here manages => exact (managing_neutral manages [] _).2
  case unmoved next level => cases next <;> trivial
  case woken hwm next p result => cases next <;> trivial
  all_goals trivial

theorem run_committed {snappy : Bytes → Option Bytes} {c : Config Leader Task}
    (reached : Reachable (leaderSystem snappy) RetriesCommitted c) :
    True ∧ ∀ t ∈ c.tasks, t.Waits c.shared.purgatory.heap ∧ t.Committed c.shared.ps.hwm := by
  refine reachable_local (fun _ => True) (fun s t => t.Waits s.purgatory.heap ∧ t.Committed s.ps.hwm)
    (fun _ _ => trivial) ?_ ?_ reached
  · intro s t _ spawned
    cases spawned <;> exact ⟨trivial, trivial⟩
  · intro c i env t s' t' before at_i permitted moves _ own
    have rule := (system_trans moves).2
    have guarded := (run_guarded before).1.1
    obtain ⟨ordered, published⟩ := run_ordered before
    obtain ⟨_, grows, _⟩ := change_ordered (trans_ps rule) (trans_nextOffset_le rule) ordered
      (published t (List.mem_of_getElem? at_i))
    have retry : t.retryCommitted c.shared = true := by
      simpa only [RetriesCommitted, retriesCommitted, at_i] using permitted
    refine ⟨trivial, ⟨trans_waits rule guarded.wf own.1, trans_committed rule guarded own.1 retry own.2⟩, ?_⟩
    intro u _ old
    exact ⟨waits_stable (trans_purgatory rule) guarded.wf u old.1, committed_mono grows u old.2⟩

/-- If every retry that the ring recognises comes when its batch is below the high watermark, then every
success answered for acks=-1 is about a batch below the high watermark. A retry answered from the ring at any
other time is a success about a batch that is not committed. -/
theorem acks_committed_iff (snappy : Bytes → Option Bytes) :
    (∀ c, Reachable (leaderSystem snappy) RetriesCommitted c →
      ∀ d r, Task.answered d r ∈ c.tasks → d.acks = ackExactlyOnce → r.errorCode = 0 →
        r.baseOffset + d.count - 1 < c.shared.ps.hwm) ∧
    (∀ (c : Config Leader Task) (i : Nat) (env : Env) (d : Produce) (s' : Leader) (r : PartitionResult),
      Run snappy c → c.tasks[i]? = some (.validate d) → d.acks = ackExactlyOnce →
      (leaderSystem snappy).step env c.shared (.validate d) = some (s', .answered d r) → r.errorCode = 0 →
      (r.baseOffset + d.count - 1 < s'.ps.hwm ↔ retriesCommitted c i env = true)) := by
  constructor
  · intro c reached d r member acks code
    exact ((run_committed reached).2 _ member).2 acks code
  · intro c i env d s' r _ at_i acks moves code
    have rule := (system_trans moves).2
    simp only [retriesCommitted, at_i, Task.retryCommitted]
    generalize target : Task.answered d r = t' at rule
    cases rule
    case invalid code' nonzero idempotence result =>
      obtain ⟨_, rfl⟩ := Task.answered.inj target
      exact absurd code nonzero
    case duplicate cached idempotence result =>
      obtain ⟨_, rfl⟩ := Task.answered.inj target
      obtain ⟨_, prod, entry, ring⟩ := IdempotenceState.validate_duplicate result
      simp only [entry, ring, acks, forall_const, decide_eq_true_eq]
      rfl
    case accepted => cases target
    case stuck here => cases here
    case managed here _ => cases here
    case removed here _ => cases here
    case added here _ => cases here
    case idled here => cases here

/-- A follower fetches the batch, its handler is answered, and then comes the retry. -/
theorem acks_committed_retry : ∃ c d r, Run (fun _ => none) c ∧ c.tasks[2]? = some (Task.answered d r) ∧
    c.shared.ps.isr = [1, 2] ∧ c.shared.stored.length = 1 ∧ d.acks = ackExactlyOnce ∧ r.errorCode = 0 ∧
    r.baseOffset + d.count - 1 < c.shared.ps.hwm := by
  obtain ⟨c, reached, answered⟩ := exec_reaches (leaderSystem fun _ => none)
    (fun c i env checked => (show RetriesCommitted c i env from checked))
    ((.spawn (.arrive ⟨-1, some (soloBatch 7 0 0)⟩) :: List.replicate 9 (.act 0 calm)) ++
      (.spawn (.replicaFetch 2 1) :: List.replicate 3 (.act 1 calm)) ++
      [.act 0 calm, .spawn (.arrive ⟨-1, some (soloBatch 7 0 0)⟩), .act 2 calm, .act 2 calm])
    (fun c => match (c.tasks[2]? : Option Task) with
      | some (.answered d r) => decide (c.shared.ps.isr = [1, 2] ∧ c.shared.stored.length = 1 ∧
          d.acks = ackExactlyOnce ∧ r.errorCode = 0)
      | _ => false)
    (newPartition_fresh 1 [1, 2] [1, 2] none)
    (by simp [List.replicate]; exact ⟨.produce _, .fetch 2 1, .produce _⟩) (by decide +kernel)
  split at answered
  · rename_i d r found
    obtain ⟨isr, once, acks, code⟩ := of_decide_eq_true answered
    exact ⟨c, d, r, reachable_free reached, found, isr, once, acks, code,
      (acks_committed_iff fun _ => none).1 c reached d r (List.mem_of_getElem? found) acks code⟩
  · cases answered

/-- The first handler waits for a follower that has fetched nothing; its retry is answered with success
while the high watermark is still zero. -/
theorem acks_retry_uncommitted : ∃ c d r, Run (fun _ => none) c ∧ Task.answered d r ∈ c.tasks ∧
    d.acks = ackExactlyOnce ∧ r.errorCode = 0 ∧ ¬ r.baseOffset + d.count - 1 < c.shared.ps.hwm := by
  obtain ⟨c, reached, answered⟩ := exec_reaches (leaderSystem fun _ => none) unchecked_free
    (.spawn (.arrive ⟨-1, some (soloBatch 7 0 0)⟩) :: List.replicate 9 (.act 0 calm) ++
      [.spawn (.arrive ⟨-1, some (soloBatch 7 0 0)⟩), .act 1 calm, .act 1 calm])
    (fun c => match (c.tasks[1]? : Option Task) with
      | some (.answered d r) =>
        decide (d.acks = ackExactlyOnce ∧ r.errorCode = 0 ∧ ¬ r.baseOffset + d.count - 1 < c.shared.ps.hwm)
      | _ => false)
    (newPartition_fresh 1 [1, 2] [1, 2] none) (by simp [List.replicate]; exact Spawned.produce _) (by decide +kernel)
  split at answered
  · rename_i d r found
    obtain ⟨acks, code, uncommitted⟩ := of_decide_eq_true answered
    exact ⟨c, d, r, reached, List.mem_of_getElem? found, acks, code, uncommitted⟩
  · cases answered

end KafGo.Partition
