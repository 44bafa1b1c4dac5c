import KafGo.Partition.Steps

/-!
# Watermarks

The high watermark never passes the log end offset, that never passes the end of the log, and neither ever
falls. A produce handler publishes its log end some steps after its append, so the argument carries the
offsets of batches that are stored and not yet published.
-/

namespace KafGo.Partition
open Lib Coordinator Protocol Storage

inductive PsChange (ps : PartitionState) (t : Task) : PartitionState → Prop where
  | same : PsChange ps t ps
  | raised (d : Produce) (base : Int) (here : t = .raise d base) :
      PsChange ps t (ps.onLeaderAppend (d.lastOffset base))
  | fetched (now follower upto : Int) : PsChange ps t (ps.updateReplicaLEO now follower upto)
  | removed (id : Int) : PsChange ps t (ps.removeFromISR id)
  | added (id : Int) : PsChange ps t (ps.addToISR id)
  | advanced : PsChange ps t ps.advanceHWM

variable {env : Env} {s s' : Leader} {t t' : Task} {logEnd : Int}

theorem trans_ps (rule : Trans env s t s' t') : PsChange s.ps t s'.ps := by
  cases rule
  case raised d base => exact .raised d base rfl
  case fetched follower upto => exact .fetched _ follower upto
  case removed id here manages => exact .removed id
  case removedOnce id => exact .removed id
  case added id here manages => exact .added id
  case addedOnce id => exact .added id
  case advanced next higher => exact .advanced
  case unmoved next level => exact .advanced
  all_goals exact .same

theorem trans_log (rule : Trans env s t s' t') :
    s'.log.nextOffset = s.log.nextOffset ∨ ∃ d, t = .append d ∧ s'.log.nextOffset = s.log.nextOffset + d.count := by
  cases rule
  case stored d log base result => exact Or.inr ⟨d, rfl, (CommitLog.appendRaw_ok result).2⟩
  case unstored d code nonzero log next fails grows => exact Or.inl next
  all_goals exact Or.inl rfl

theorem trans_nextOffset_le (rule : Trans env s t s' t') :
    s.log.nextOffset ≤ s'.log.nextOffset := by
  rcases trans_log rule with same | ⟨d, _, more⟩ <;> omega

structure Ordered (ps : PartitionState) (logEnd : Int) : Prop where
  low : 0 ≤ ps.hwm
  hwm : ps.hwm ≤ ps.leo
  leo : ps.leo ≤ logEnd

/-- The batch a handler has stored and not yet published lies in the log. -/
def Task.Published (logEnd : Int) : Task → Prop
  | .record d base | .raise d base => d.lastOffset base < logEnd
  | _ => True

theorem published_mono {later : Int} (grows : logEnd ≤ later) (t : Task) (published : t.Published logEnd) :
    t.Published later := by
  cases t with
  | record d base | raise d base =>
    have bound : d.lastOffset base < logEnd := published
    exact Int.lt_of_lt_of_le bound grows
  | _ => trivial

theorem published_managing (manages : t.managing = true) : t.Published logEnd := by
  cases t <;> trivial

theorem trans_published (rule : Trans env s t s' t') (published : t.Published s.log.nextOffset) :
    t'.Published s'.log.nextOffset := by
  cases rule
  case stored d log base result =>
    obtain ⟨start, next⟩ := CommitLog.appendRaw_ok result
    have inside : d.lastOffset base < log.nextOffset := by
      unfold Produce.lastOffset
      omega
    split
    · exact inside
    · exact inside
  case managed here manages => exact published_managing manages
  case removed id here manages => exact published_managing manages
  case added id here manages => exact published_managing manages
  case unmoved next level => cases next <;> trivial
  case woken hwm next p result => cases next <;> trivial
  all_goals first | exact published | trivial

theorem change_ordered {ps ps' : PartitionState} {later : Int} (changed : PsChange ps t ps') (grows : logEnd ≤ later)
    (ordered : Ordered ps logEnd) (published : t.Published logEnd) :
    Ordered ps' later ∧ ps.hwm ≤ ps'.hwm ∧ ps.leo ≤ ps'.leo := by
  obtain ⟨low, hwm, leo⟩ := ordered
  have kept : Ordered ps later := ⟨low, hwm, by omega⟩
  cases changed with
  | same => exact ⟨kept, Int.le_refl _, Int.le_refl _⟩
  | raised d base here =>
    subst here
    have inside : d.lastOffset base < logEnd := published
    have raised := ps.onLeaderAppend_leo (d.lastOffset base)
    refine ⟨⟨low, ?_, by rw [raised]; omega⟩, Int.le_refl _, by rw [raised]; omega⟩
    show ps.hwm ≤ (ps.onLeaderAppend (d.lastOffset base)).leo
    rw [raised]
    omega
  | fetched | removed | added => exact ⟨⟨low, hwm, kept.leo⟩, Int.le_refl _, Int.le_refl _⟩
  | advanced =>
    have top := ps.newHWM_le_leo
    have moved := ps.advanceHWM_hwm
    have still := ps.advanceHWM_leo
    exact ⟨⟨by omega, by omega, by omega⟩, by omega, by omega⟩

/-- A step raises the high watermark only up to what the leader and every in-sync follower have. -/
theorem change_raise {ps ps' : PartitionState} (changed : PsChange ps t ps') (low : 0 ≤ ps.hwm)
    (higher : ps.hwm < ps'.hwm) :
    ps'.hwm ≤ ps'.leo ∧ ∀ id ∈ ps'.isr, id ≠ ps'.leaderBrokerID →
      ∃ recorded, ps'.replicaLEO id = some recorded ∧ ps'.hwm ≤ recorded := by
  cases changed with
  | same => omega
  | raised | fetched | removed | added => exact absurd higher (Int.lt_irrefl _)
  | advanced =>
    have moved := ps.advanceHWM_hwm
    have top := ps.newHWM_le_leo
    have still := ps.advanceHWM_leo
    refine ⟨by omega, ?_⟩
    intro id member follower
    rw [ps.advanceHWM_isr] at member
    rw [ps.advanceHWM_leaderBrokerID] at follower
    rw [ps.advanceHWM_replicaLEO]
    have bound := ps.newHWM_le_recorded member follower
    -- A follower that never fetched counts as zero and holds the watermark back.
    unfold PartitionState.recordedLEO at bound
    cases recorded : ps.replicaLEO id with
    | none =>
      rw [recorded, Option.getD_none] at bound
      omega
    | some leo =>
      rw [recorded, Option.getD_some] at bound
      exact ⟨leo, rfl, by omega⟩

theorem run_ordered {snappy : Bytes → Option Bytes} {allowed : Condition Leader Task Env} {c : Config Leader Task}
    (reached : Reachable (leaderSystem snappy) allowed c) :
    Ordered c.shared.ps c.shared.log.nextOffset ∧ ∀ t ∈ c.tasks, t.Published c.shared.log.nextOffset := by
  refine reachable_local (fun s => Ordered s.ps s.log.nextOffset) (fun s t => t.Published s.log.nextOffset)
    ?_ ?_ ?_ reached
  · intro s fresh
    have leo := fresh.leo
    have hwm := fresh.hwm
    have next := fresh.next
    exact ⟨by omega, by omega, by omega⟩
  · intro s t _ spawned
    cases spawned <;> trivial
  · intro c i env t s' t' _ _ _ moves ordered published
    have rule := (system_trans moves).2
    have grows := trans_nextOffset_le rule
    exact ⟨(change_ordered (trans_ps rule) grows ordered published).1, trans_published rule published,
      fun u _ old => published_mono grows u old⟩

/-- In every reachable state the high watermark is at most the log end offset and that is at most the end of
the log. No step lowers either, and a step that raises the high watermark keeps it within the log end
offset and within the recorded log end of every in-sync follower. -/
theorem watermarks_ordered (snappy : Bytes → Option Bytes) (c : Config Leader Task) (reached : Run snappy c) :
    c.shared.ps.hwm ≤ c.shared.ps.leo ∧ c.shared.ps.leo ≤ c.shared.log.nextOffset ∧
      ∀ (i : Nat) (env : Env) (t t' : Task) (s' : Leader), c.tasks[i]? = some t →
        (leaderSystem snappy).step env c.shared t = some (s', t') →
        c.shared.ps.hwm ≤ s'.ps.hwm ∧ c.shared.ps.leo ≤ s'.ps.leo ∧
        (c.shared.ps.hwm < s'.ps.hwm → s'.ps.hwm ≤ s'.ps.leo ∧
          ∀ id ∈ s'.ps.isr, id ≠ s'.ps.leaderBrokerID →
            ∃ recorded, s'.ps.replicaLEO id = some recorded ∧ s'.ps.hwm ≤ recorded) := by
  obtain ⟨ordered, published⟩ := run_ordered reached
  refine ⟨ordered.hwm, ordered.leo, ?_⟩
  intro i env t t' s' at_i moves
  have rule := (system_trans moves).2
  have changed := trans_ps rule
  obtain ⟨_, hwm, leo⟩ := change_ordered changed (trans_nextOffset_le rule) ordered
    (published t (List.mem_of_getElem? at_i))
  exact ⟨hwm, leo, change_raise changed ordered.low⟩

/-- A handler stores a batch, publishes the log end and raises the high watermark of a partition whose only
in-sync replica is the leader. -/
theorem watermarks_ordered_produce : ∃ c, Run (fun _ => none) c ∧ c.shared.ps.hwm = 1 ∧
    c.shared.ps.hwm ≤ c.shared.ps.leo ∧ c.shared.ps.leo ≤ c.shared.log.nextOffset := by
  obtain ⟨c, reached, raised⟩ := exec_reaches (leaderSystem fun _ => none) unchecked_free
    (.spawn (.arrive ⟨1, some (soloBatch 7 0 0)⟩) :: List.replicate 6 (.act 0 calm))
    (fun c => decide (c.shared.ps.hwm = 1)) (newPartition_fresh 1 [1] [1] none)
    (by simp [List.replicate]; exact Spawned.produce _) (by decide +kernel)
  have ordered := watermarks_ordered (fun _ => none) c reached
  exact ⟨c, reached, by simpa using raised, ordered.1, ordered.2.1⟩

end KafGo.Partition
