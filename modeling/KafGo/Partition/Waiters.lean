import KafGo.Partition.Watermarks

/-!
# Parked waiters

The high watermark moves under the lock of the partition and waiters are released under the lock of the
purgatory, so a waiter can be added in between. Two facts are carried through every interleaving: values on
their way to `CompleteUpTo` never exceed the high watermark, and a parked waiter below the high watermark is
covered by a task that will still release it.
-/

namespace KafGo.Partition
open Lib Coordinator Protocol Storage

inductive PurgatoryChange (p : PartitionPurgatory) (t : Task) : PartitionPurgatory → Prop where
  | same : PurgatoryChange p t p
  | parked (d : Produce) (base : Int) (here : t = .respond d base) : PurgatoryChange p t (p.add (d.lastOffset base))
  | completed (hwm : Int) (here : t.pending = some hwm) (p' : PartitionPurgatory)
      (result : p.completeUpTo hwm = some p') : PurgatoryChange p t p'
  | failed (p' : PartitionPurgatory) (result : p.failAll errNotEnoughReplicasAfterAppend = some p') :
      PurgatoryChange p t p'

variable {env : Env} {s s' : Leader} {t t' : Task} {hwm : Int} {p p' : PartitionPurgatory} {w : Nat}
  {cell : PartitionAppendWaiter}

theorem trans_purgatory (rule : Trans env s t s' t') :
    PurgatoryChange s.purgatory t s'.purgatory := by
  cases rule
  case parked d base acks => exact .parked d base rfl
  case completed d base w hwm p result => exact .completed hwm rfl p result
  case woken hwm next p result => exact .completed hwm rfl p result
  case failedAll p result => exact .failed p result
  all_goals exact .same

theorem trans_crash (rule : Trans env s t s' t') (up : s.crash = none) (wf : s.purgatory.WellFormed) :
    s'.crash ≠ some .channel := by
  cases rule
  case stuck hwm result here =>
    obtain ⟨p', completes, _⟩ := PartitionPurgatory.completeUpTo_resolved wf hwm
    rw [result] at completes
    cases completes
  case stuckAll result =>
    obtain ⟨p', fails, _⟩ := PartitionPurgatory.failAll_resolved wf errNotEnoughReplicasAfterAppend
    rw [result] at fails
    cases fails
  case undecodable => simp
  all_goals simp [up, Leader.record]

/-! ### The invariant -/

/-- Every cell holds at most one value: success only below the high watermark, or the error of `FailAll`. -/
structure Guarded (p : PartitionPurgatory) (hwm : Int) : Prop where
  wf : p.WellFormed
  completed : ∀ (w : Nat) (cell : PartitionAppendWaiter), p.heap[w]? = some cell →
    .completed ∈ cell.done.sent → cell.requiredOffset < hwm
  failed : ∀ (w : Nat) (cell : PartitionAppendWaiter) (code : Int), p.heap[w]? = some cell →
    .failed code ∈ cell.done.sent → code = errNotEnoughReplicasAfterAppend

/-- Values on their way to `CompleteUpTo` are at most the high watermark. -/
def Task.Bounded (hwm : Int) : Task → Prop
  | .complete _ _ _ h => h ≤ hwm
  | .wake h _ => h ≤ hwm
  | _ => True

theorem bounded_mono {later : Int} (grows : hwm ≤ later) (t : Task) (bounded : t.Bounded hwm) :
    t.Bounded later := by
  cases t with
  | complete d base w h | wake h next =>
    have bound : h ≤ hwm := bounded
    exact Int.le_trans bound grows
  | _ => trivial

theorem bounded_managing (manages : t.managing = true) : t.Bounded hwm := by
  cases t <;> trivial

theorem bounded_pending {h : Int} (bounded : t.Bounded hwm) (here : t.pending = some h) :
    h ≤ hwm := by
  cases t with
  | complete d base w h' | wake h' next =>
    obtain rfl := Option.some.inj here
    exact bounded
  | _ => cases here

theorem trans_bounded (rule : Trans env s t s' t') (bounded : t.Bounded s.ps.hwm) :
    t'.Bounded s'.ps.hwm := by
  cases rule
  case stored d log base result => split <;> trivial
  case read d base w => exact Int.le_refl _
  case managed here manages => exact bounded_managing manages
  case removed id here manages => exact bounded_managing manages
  case added id here manages => exact bounded_managing manages
  case advanced next higher => exact Int.le_refl _
  case unmoved next level => cases next <;> trivial
  case woken hwm next p result => cases next <;> trivial
  all_goals trivial

theorem resolved_guarded {gone : Nat → Prop} [DecidablePred gone] {v : Outcome} (guarded : Guarded p hwm)
    (resolved : PartitionPurgatory.Resolved p p' gone v)
    (success : v = .completed → ∀ (w : Nat) (cell : PartitionAppendWaiter), p.heap[w]? = some cell → gone w →
      cell.requiredOffset < hwm)
    (failure : ∀ code, v = .failed code → code = errNotEnoughReplicasAfterAppend) : Guarded p' hwm where
  wf := PartitionPurgatory.resolved_wellFormed guarded.wf resolved
  completed := by
    intro w cell found sent
    rw [resolved.heap] at found
    obtain ⟨old, before, rfl⟩ := Option.map_eq_some_iff.mp found
    split at sent
    · rename_i leaves
      rw [if_pos leaves]
      exact success (List.mem_singleton.mp sent).symm w old before leaves.2
    · rename_i stays
      rw [if_neg stays]
      exact guarded.completed w old before sent
  failed := by
    intro w cell code found sent
    rw [resolved.heap] at found
    obtain ⟨old, before, rfl⟩ := Option.map_eq_some_iff.mp found
    split at sent
    · exact failure code (List.mem_singleton.mp sent).symm
    · exact guarded.failed w old code before sent

theorem required_of_cell {heap : List PartitionAppendWaiter} (found : heap[w]? = some cell) :
    PartitionPurgatory.required heap w = cell.requiredOffset := by
  unfold PartitionPurgatory.required
  rw [found]
  rfl

theorem add_heap {off : Int} (found : (p.add off).heap[w]? = some cell) :
    p.heap[w]? = some cell ∨ (w = p.fresh ∧ cell = ⟨off, .empty⟩) := by
  simp only [PartitionPurgatory.add] at found
  rcases Nat.lt_or_ge w p.heap.length with old | new
  · rw [List.getElem?_append_left old] at found
    exact Or.inl found
  · rw [List.getElem?_append_right new] at found
    have bound : w - p.heap.length < 1 := by
      by_contra far
      rw [List.getElem?_eq_none (by simp; omega)] at found
      cases found
    refine Or.inr ⟨by unfold PartitionPurgatory.fresh; omega, ?_⟩
    exact List.mem_singleton.mp (List.mem_of_getElem? found)

theorem change_guarded {later : Int} (changed : PurgatoryChange p t p') (guarded : Guarded p hwm)
    (bounded : t.Bounded hwm) (grows : hwm ≤ later) : Guarded p' later := by
  have kept : Guarded p later := ⟨guarded.wf, fun w cell found sent =>
    Int.lt_of_lt_of_le (guarded.completed w cell found sent) grows, guarded.failed⟩
  cases changed with
  | same => exact kept
  | parked d base here =>
    refine ⟨PartitionPurgatory.add_wellFormed guarded.wf _, ?_, ?_⟩
    · intro w cell found sent
      rcases add_heap found with old | ⟨_, rfl⟩
      · exact kept.completed w cell old sent
      · cases sent
    · intro w cell code found sent
      rcases add_heap found with old | ⟨_, rfl⟩
      · exact kept.failed w cell code old sent
      · cases sent
  | completed h here p' result =>
    obtain ⟨p'', completes, resolved⟩ := PartitionPurgatory.completeUpTo_resolved guarded.wf h
    rw [result] at completes
    obtain rfl := Option.some.inj completes
    refine resolved_guarded kept resolved ?_ nofun
    intro _ w cell found below
    have bound := bounded_pending bounded here
    rw [required_of_cell found] at below
    omega
  | failed p' result =>
    obtain ⟨p'', fails, resolved⟩ := PartitionPurgatory.failAll_resolved guarded.wf errNotEnoughReplicasAfterAppend
    rw [result] at fails
    obtain rfl := Option.some.inj fails
    exact resolved_guarded kept resolved nofun fun code same => (Outcome.failed.inj same).symm

theorem run_guarded {snappy : Bytes → Option Bytes} {allowed : Condition Leader Task Env} {c : Config Leader Task}
    (reached : Reachable (leaderSystem snappy) allowed c) :
    (Guarded c.shared.purgatory c.shared.ps.hwm ∧ c.shared.crash ≠ some .channel) ∧
      ∀ t ∈ c.tasks, t.Bounded c.shared.ps.hwm := by
  refine reachable_local (fun s => Guarded s.purgatory s.ps.hwm ∧ s.crash ≠ some .channel)
    (fun s t => t.Bounded s.ps.hwm) ?_ ?_ ?_ reached
  · intro s fresh
    rw [fresh.purgatory, fresh.crash]
    refine ⟨⟨PartitionPurgatory.empty_wellFormed, ?_, ?_⟩, nofun⟩
    · intro w cell found
      simp [PartitionPurgatory.empty] at found
    · intro w cell code found
      simp [PartitionPurgatory.empty] at found
  · intro s t _ spawned
    cases spawned <;> trivial
  · intro c i env t s' t' before at_i _ moves guarded bounded
    obtain ⟨up, rule⟩ := system_trans moves
    obtain ⟨ordered, published⟩ := run_ordered before
    obtain ⟨_, grows, _⟩ := change_ordered (trans_ps rule) (trans_nextOffset_le rule) ordered
      (published t (List.mem_of_getElem? at_i))
    exact ⟨⟨change_guarded (trans_purgatory rule) guarded.1 bounded grows, trans_crash rule up guarded.1.wf⟩,
      trans_bounded rule bounded, fun u _ old => bounded_mono grows u old⟩

/-! ### No lost wakeup -/

/-- A parked waiter that the high watermark has passed. -/
def Overdue (s : Leader) (w : Nat) : Prop :=
  w ∈ s.purgatory.waiters ∧ PartitionPurgatory.required s.purgatory.heap w < s.ps.hwm

/-- Tasks with a release still to come: `CompleteUpTo` of a value, or the handler that has just parked its
own waiter and will read the high watermark. -/
def Task.covering : Task → Bool
  | .readHWM _ _ _ | .complete _ _ _ _ | .wake _ _ => true
  | _ => false

def Covers (s : Leader) (t : Task) (w : Nat) : Prop :=
  (∃ h, t.pending = some h ∧ PartitionPurgatory.required s.purgatory.heap w < h) ∨ ∃ d base, t = .readHWM d base w

theorem covers_covering (cover : Covers s t w) : t.covering = true := by
  rcases cover with ⟨h, pending, _⟩ | ⟨d, base, rfl⟩
  · cases t <;> first | rfl | cases pending
  · rfl

theorem administers_plain (here : t.administers = true) : t.covering = false := by
  cases t <;> first | rfl | cases here

theorem change_cell (changed : PurgatoryChange p t p') (wf : p.WellFormed) (found : p.heap[w]? = some cell) :
    ∃ cell', p'.heap[w]? = some cell' ∧ cell'.requiredOffset = cell.requiredOffset := by
  have resolved : ∀ (p'' : PartitionPurgatory) (gone : Nat → Prop) [DecidablePred gone] (v : Outcome),
      PartitionPurgatory.Resolved p p'' gone v →
      ∃ cell', p''.heap[w]? = some cell' ∧ cell'.requiredOffset = cell.requiredOffset := by
    intro p'' gone _ v after
    rw [after.heap w, found]
    refine ⟨_, rfl, ?_⟩
    split <;> rfl
  cases changed with
  | same => exact ⟨cell, found, rfl⟩
  | parked d base here =>
    refine ⟨cell, ?_, rfl⟩
    simp only [PartitionPurgatory.add]
    rw [List.getElem?_append_left (List.getElem?_eq_some_iff.mp found).1, found]
  | completed h here p'' result =>
    obtain ⟨q, completes, after⟩ := PartitionPurgatory.completeUpTo_resolved wf h
    rw [result] at completes
    obtain rfl := Option.some.inj completes
    exact resolved _ _ _ after
  | failed p'' result =>
    obtain ⟨q, fails, after⟩ := PartitionPurgatory.failAll_resolved wf errNotEnoughReplicasAfterAppend
    rw [result] at fails
    obtain rfl := Option.some.inj fails
    exact resolved _ _ _ after

theorem change_required (changed : PurgatoryChange p t p') (wf : p.WellFormed) (member : w ∈ p.waiters) :
    PartitionPurgatory.required p'.heap w = PartitionPurgatory.required p.heap w := by
  obtain ⟨cell, found, _⟩ := (wf.parked w).mp member
  obtain ⟨cell', found', same⟩ := change_cell changed wf found
  rw [required_of_cell found, required_of_cell found', same]

theorem completed_clears {h : Int} (wf : p.WellFormed) (result : p.completeUpTo h = some p') (member : w ∈ p'.waiters) :
    w ∈ p.waiters ∧ h ≤ PartitionPurgatory.required p.heap w := by
  obtain ⟨q, completes, after⟩ := PartitionPurgatory.completeUpTo_resolved wf h
  rw [result] at completes
  obtain rfl := Option.some.inj completes
  rw [after.waiters, List.mem_filter] at member
  obtain ⟨parked, stays⟩ := member
  exact ⟨parked, by simpa using stays⟩

/-- A step that makes a waiter overdue, or that was to release it and did not, leaves its own task in charge
of the waiter. -/
theorem trans_covers (rule : Trans env s t s' t') (wf : s.purgatory.WellFormed) (overdue : Overdue s' w)
    (before : ¬ Overdue s w ∨ Covers s t w) :
    Covers s' t' w := by
  have plain : t.covering = false → Overdue s w → Covers s' t' w := by
    intro plain same
    rcases before with fresh | cover
    · exact absurd same fresh
    · rw [covers_covering cover] at plain
      cases plain
  -- The value of a release: what stays parked was not overdue for it.
  have release : ∀ (h : Int) (p : PartitionPurgatory), t.pending = some h → (∀ d base, t ≠ .readHWM d base w) →
      s.purgatory.completeUpTo h = some p → s'.purgatory = p → s'.ps = s.ps → Covers s' t' w := by
    intro h p here other result same level
    obtain ⟨member, low⟩ := overdue
    rw [same] at member low
    rw [level] at low
    obtain ⟨parked, high⟩ := completed_clears wf result member
    have kept : PartitionPurgatory.required p.heap w = PartitionPurgatory.required s.purgatory.heap w :=
      change_required (.completed h here p result) wf parked
    rcases before with fresh | ⟨h', here', below⟩ | ⟨d, base, itself⟩
    · exact absurd ⟨parked, by omega⟩ fresh
    · rw [here] at here'
      obtain rfl := Option.some.inj here'
      omega
    · exact absurd itself (other d base)
  cases rule
  case parked d base acks =>
    obtain ⟨member, low⟩ := overdue
    simp only [PartitionPurgatory.add, List.mem_append, List.mem_singleton] at member
    rcases member with old | rfl
    · refine plain rfl ⟨old, ?_⟩
      rw [← change_required (t := .respond d base) (.parked d base rfl) wf old]
      exact low
    · exact Or.inr ⟨d, base, rfl⟩
  case read d base w' =>
    rcases before with fresh | ⟨h, pending, _⟩ | ⟨_, _, same⟩
    · exact absurd overdue fresh
    · cases pending
    · exact Or.inl ⟨s.ps.hwm, rfl, overdue.2⟩
  case completed _ _ _ h p result | woken h _ p result =>
    exact release h p rfl (fun _ _ same => by cases same) result rfl rfl
  case stuck hwm result here =>
    obtain ⟨p', completes, _⟩ := PartitionPurgatory.completeUpTo_resolved wf hwm
    rw [result] at completes
    cases completes
  case failedAll p result =>
    obtain ⟨q, fails, after⟩ := PartitionPurgatory.failAll_resolved wf errNotEnoughReplicasAfterAppend
    rw [result] at fails
    obtain rfl := Option.some.inj fails
    have member := overdue.1
    simp [after.waiters] at member
  case advanced next higher => exact Or.inl ⟨_, rfl, overdue.2⟩
  case unmoved next level =>
    have still : s.ps.advanceHWM = s.ps := by
      unfold PartitionState.advanceHWM
      rw [if_neg (by simp [level])]
    refine plain rfl ⟨overdue.1, ?_⟩
    have low := overdue.2
    dsimp only at low
    rw [still] at low
    exact low
  case managed here _ | removed _ here _ | added _ here _ | idled here => exact plain (administers_plain here) overdue
  all_goals exact plain rfl overdue

theorem run_covered {snappy : Bytes → Option Bytes} {c : Config Leader Task} (reached : Run snappy c) :
    ∀ w, Overdue c.shared w → ∃ t ∈ c.tasks, Covers c.shared t w := by
  refine reachable_covered Overdue Covers ?_ ?_ ?_ reached
  · intro s w fresh overdue
    have member := overdue.1
    rw [Fresh.purgatory fresh] at member
    cases member
  · intro c i env t s' t' w before _ _ moves overdue cover
    exact trans_covers (system_trans moves).2 (run_guarded before).1.1.wf overdue cover
  · intro c i env t s' t' w u before _ _ moves overdue cover
    have kept := change_required (trans_purgatory (system_trans moves).2) (run_guarded before).1.1.wf overdue.1
    rcases cover with ⟨h, pending, below⟩ | itself
    · exact Or.inl ⟨h, pending, by rw [kept]; exact below⟩
    · exact Or.inr itself

/-- In every interleaving each waiter gets at most one value and is closed at most once, without a panic on
its channel; success comes only below the high watermark, an unresolved waiter is always in the list, once,
and when no release is on its way every parked waiter is at or above the high watermark. -/
theorem waiters_resolved_once (snappy : Bytes → Option Bytes) (c : Config Leader Task) (reached : Run snappy c) :
    c.shared.crash ≠ some .channel ∧ c.shared.purgatory.waiters.Nodup ∧
      (∀ (w : Nat) (cell : PartitionAppendWaiter), c.shared.purgatory.heap[w]? = some cell →
        cell.done.sent.length ≤ 1 ∧ cell.done.closes = cell.done.sent.length ∧
        (.completed ∈ cell.done.sent → cell.requiredOffset < c.shared.ps.hwm) ∧
        (cell.done.sent = [] → w ∈ c.shared.purgatory.waiters)) ∧
      ((∀ t ∈ c.tasks, t.covering = false) → ∀ w ∈ c.shared.purgatory.waiters,
        ∃ cell, c.shared.purgatory.heap[w]? = some cell ∧ cell.done = .empty ∧
          c.shared.ps.hwm ≤ cell.requiredOffset) := by
  obtain ⟨⟨guarded, up⟩, _⟩ := run_guarded reached
  refine ⟨up, guarded.wf.distinct, ?_, ?_⟩
  · intro w cell found
    have below := guarded.completed w cell found
    rcases guarded.wf.settled w cell found with unset | ⟨v, sent⟩
    · refine ⟨by rw [unset]; decide, by rw [unset]; rfl, below, fun _ => ?_⟩
      exact (guarded.wf.parked w).mpr ⟨cell, found, unset⟩
    · refine ⟨by rw [sent]; exact Nat.le_refl 1, by rw [sent]; rfl, below, fun none => ?_⟩
      rw [sent] at none
      cases none
  · intro quiet w member
    obtain ⟨cell, found, unset⟩ := (guarded.wf.parked w).mp member
    refine ⟨cell, found, unset, ?_⟩
    by_contra passed
    have overdue : Overdue c.shared w := ⟨member, by rw [required_of_cell found]; omega⟩
    obtain ⟨t, inside, cover⟩ := run_covered reached w overdue
    have busy := covers_covering cover
    rw [quiet t inside] at busy
    cases busy

/-- A handler parks its waiter while an in-sync follower holds the high watermark back. -/
theorem waiters_resolved_once_parked : ∃ c, Run (fun _ => none) c ∧ c.shared.purgatory.waiters = [0] ∧
    c.shared.crash ≠ some .channel ∧ ∃ cell, c.shared.purgatory.heap[0]? = some cell ∧ cell.done = .empty ∧
      c.shared.ps.hwm ≤ cell.requiredOffset := by
  obtain ⟨c, reached, parked⟩ := exec_reaches (leaderSystem fun _ => none) unchecked_free
    (.spawn (.arrive ⟨-1, some (soloBatch 7 0 0)⟩) :: List.replicate 9 (.act 0 calm))
    (fun c => decide (c.shared.purgatory.waiters = [0]) && c.tasks.all (fun t => !t.covering))
    (newPartition_fresh 1 [1, 2] [1, 2] none) (by simp [List.replicate]; exact Spawned.produce _) (by decide +kernel)
  rw [Bool.and_eq_true, decide_eq_true_eq, List.all_eq_true] at parked
  obtain ⟨up, _, _, quiet⟩ := waiters_resolved_once (fun _ => none) c reached
  exact ⟨c, reached, parked.1, up, quiet (fun t member => by simpa using parked.2 t member) 0 (by rw [parked.1]; simp)⟩

end KafGo.Partition
