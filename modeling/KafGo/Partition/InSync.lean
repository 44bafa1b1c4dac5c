import KafGo.Partition.Watermarks

/-!
# In-sync replicas hold the committed records

A tick decides on a snapshot which replicas join the in-sync set and adds them afterwards, under a lock of its
own for each. Appends in between may raise the high watermark past a replica that had caught up when the
snapshot was taken.
-/

namespace KafGo.Partition
open Lib Coordinator Protocol Storage

/-- A partition as `AssignReplicas` makes it: the leader is the only in-sync replica and no follower has
fetched. -/
structure Assigned (s : Leader) : Prop where
  fresh : Fresh s
  isr : s.ps.isr = [s.ps.leaderBrokerID]
  replicaLEO : s.ps.replicaLEO = fun _ => none

/-- Appends, replica fetches and ticks. -/
inductive Replicating : Task → Prop where
  | produce (q : ProduceRequest) : Replicating (.arrive q)
  | fetch (follower upto : Int) : Replicating (.replicaFetch follower upto)
  | tick (lagMax : Int) : Replicating (.tick lagMax)

def assignedSystem (snappy : Bytes → Option Bytes) : System Leader Task Env where
  start := Assigned
  spawn := Replicating
  step := (leaderSystem snappy).step

/-- A replica fetch does not report less than the follower's last one. -/
def fetchesForward (c : Config Leader Task) (i : Nat) (_ : Env) : Bool :=
  match c.tasks[i]? with
  | none => true
  | some (.replicaFetch follower upto) =>
    (c.shared.ps.replicaLEO follower).all fun recorded => decide (recorded ≤ upto)
  | some _ => true

/-- A replica that the snapshot lets in still reaches the high watermark when it is added. -/
def joinsCaughtUp (c : Config Leader Task) (i : Nat) (_ : Env) : Bool :=
  match c.tasks[i]? with
  | none => true
  | some (.expand snap (r :: _) _) => !expands snap r || caughtUp c.shared.ps r
  | some _ => true

def Task.addsOnce : Task → Prop
  | .addToISR _ => True
  | _ => False

variable {t t' : Task} {env : Env} {s s' : Leader} {snappy : Bytes → Option Bytes} {ps : PartitionState}

theorem managing_notOnce (manages : t.managing = true) : ¬ t.addsOnce := by
  cases t <;> first | exact id | cases manages

theorem step_notOnce (rule : Trans env s t s' t') : ¬ t'.addsOnce := by
  cases rule
  case stored d log base result => split <;> exact id
  case managed here manages => exact managing_notOnce manages
  case removed id here manages => exact managing_notOnce manages
  case added id here manages => exact managing_notOnce manages
  case unmoved next level => cases next <;> exact id
  case woken hwm next p result => cases next <;> exact id
  all_goals exact id

theorem step_joins (moves : step snappy env s t = some (s', t')) (several : ¬ t.addsOnce) :
    (∀ id ∈ s'.ps.isr, id ∈ s.ps.isr) ∨
      ∃ snap r todo changed, t = .expand snap (r :: todo) changed ∧ expands snap r = true ∧
        s'.ps = s.ps.addToISR r := by
  have unchanged : ∀ u, some (s, u) = some (s', t') → ∀ id ∈ s'.ps.isr, id ∈ s.ps.isr := by
    intro u same id member
    rwa [(Prod.mk.inj (Option.some.inj same)).1]
  have rule := step_trans moves
  cases t with
  | tick lagMax => exact Or.inl (unchanged _ moves)
  | checkMinISR => exact Or.inl (unchanged _ moves)
  | shrink snap now lagMax todo changed =>
    cases todo with
    | nil => exact Or.inl (unchanged _ moves)
    | cons f todo =>
      simp only [step] at moves
      split at moves
      · obtain ⟨rfl, _⟩ := Prod.mk.inj (Option.some.inj moves)
        exact Or.inl fun id member => List.mem_of_mem_filter member
      · exact Or.inl (unchanged _ moves)
  | expand snap todo changed =>
    cases todo with
    | nil => exact Or.inl (unchanged _ moves)
    | cons r todo =>
      simp only [step] at moves
      split at moves
      · rename_i joins
        obtain ⟨rfl, _⟩ := Prod.mk.inj (Option.some.inj moves)
        exact Or.inr ⟨snap, r, todo, changed, rfl, joins, rfl⟩
      · exact Or.inl (unchanged _ moves)
  | addToISR id => exact absurd trivial several
  | removeFromISR id =>
    obtain ⟨rfl, _⟩ := Prod.mk.inj (Option.some.inj moves)
    exact Or.inl fun other member => List.mem_of_mem_filter member
  | advance next =>
    obtain ⟨rfl, _⟩ := Prod.mk.inj (Option.some.inj moves)
    exact Or.inl fun id member => by rwa [s.ps.advanceHWM_isr] at member
  -- No other task touches the in-sync set.
  | _ =>
    refine Or.inl ?_
    cases rule <;> first | exact fun id member => member | contradiction

/-- Every in-sync follower has reported a log end at or above the high watermark. -/
def HoldsCommitted (ps : PartitionState) : Prop :=
  ∀ id ∈ ps.isr, id ≠ ps.leaderBrokerID → ∃ recorded, ps.replicaLEO id = some recorded ∧ ps.hwm ≤ recorded

theorem caughtUp_recorded {r : Int} (caught : caughtUp ps r = true) :
    ∃ recorded, ps.replicaLEO r = some recorded ∧ ps.hwm ≤ recorded := by
  unfold caughtUp at caught
  split at caught
  · cases caught
  · rename_i leo found
    exact ⟨leo, found, of_decide_eq_true caught⟩

theorem added_holds {r : Int} (holds : HoldsCommitted ps) (caught : caughtUp ps r = true) :
    HoldsCommitted (ps.addToISR r) := by
  intro id member follower
  rcases List.mem_append.mp member with old | new
  · exact holds id (List.mem_of_mem_filter old) follower
  · rw [List.mem_singleton.mp new]
    exact caughtUp_recorded caught

theorem fetched_holds {now follower upto : Int} (holds : HoldsCommitted ps)
    (forward : ∀ recorded, ps.replicaLEO follower = some recorded → recorded ≤ upto) :
    HoldsCommitted (ps.updateReplicaLEO now follower upto) := by
  intro id member other
  obtain ⟨recorded, found, bound⟩ := holds id member other
  show ∃ recorded, Function.update ps.replicaLEO follower (some upto) id = some recorded ∧ ps.hwm ≤ recorded
  by_cases same : id = follower
  · subst same
    rw [Function.update_self]
    exact ⟨upto, rfl, Int.le_trans bound (forward recorded found)⟩
  · rw [Function.update_of_ne same]
    exact ⟨recorded, found, bound⟩

theorem trans_recorded (rule : Trans env s t s' t') :
    (s'.ps.replicaLEO = s.ps.replicaLEO ∧ s'.ps.leaderBrokerID = s.ps.leaderBrokerID) ∨
      ∃ follower upto, t = .replicaFetch follower upto ∧ s'.ps = s.ps.updateReplicaLEO env.now follower upto := by
  cases rule
  case fetched follower upto => exact Or.inr ⟨follower, upto, rfl, rfl⟩
  case advanced next higher => exact Or.inl ⟨s.ps.advanceHWM_replicaLEO, s.ps.advanceHWM_leaderBrokerID⟩
  case unmoved next level => exact Or.inl ⟨s.ps.advanceHWM_replicaLEO, s.ps.advanceHWM_leaderBrokerID⟩
  all_goals exact Or.inl ⟨rfl, rfl⟩

theorem step_holds (moves : step snappy env s t = some (s', t')) (several : ¬ t.addsOnce) (low : 0 ≤ s.ps.hwm)
    (forward : ∀ follower upto, t = .replicaFetch follower upto → ∀ recorded,
      s.ps.replicaLEO follower = some recorded → recorded ≤ upto)
    (caught : ∀ snap r todo changed, t = .expand snap (r :: todo) changed → expands snap r = true →
      caughtUp s.ps r = true)
    (holds : HoldsCommitted s.ps) : HoldsCommitted s'.ps := by
  have rule := step_trans moves
  rcases step_joins moves several with within | ⟨snap, r, todo, changed, here, joins, added⟩
  · rcases trans_recorded rule with ⟨recorded, leader⟩ | ⟨follower, upto, here, fetched⟩
    · by_cases higher : s.ps.hwm < s'.ps.hwm
      · exact (change_raise (trans_ps rule) low higher).2
      · intro id member follower
        rw [leader] at follower
        obtain ⟨leo, found, bound⟩ := holds id (within id member) follower
        exact ⟨leo, recorded ▸ found, by omega⟩
    · rw [fetched]
      exact fetched_holds holds (forward follower upto here)
  · rw [added]
    exact added_holds holds (caught snap r todo changed here joins)

theorem assigned_free {allowed : Condition Leader Task Env} {c : Config Leader Task}
    (reached : Reachable (assignedSystem snappy) allowed c) : Run snappy c := by
  induction reached with
  | start initial => exact .start initial.fresh
  | spawn _ new ih =>
    refine .spawn ih ?_
    cases new with
    | produce q => exact .produce q
    | fetch follower upto => exact .fetch follower upto
    | tick lagMax => exact .tick lagMax
  | act env _ at_i _ moves ih => exact .act env ih at_i trivial moves

/-- In every run of appends, replica fetches that never go back and ticks in which a replica still reaches the
high watermark when it is added, every in-sync follower has the committed records in every state. -/
theorem insync_committed (snappy : Bytes → Option Bytes) (c : Config Leader Task)
    (reached : Reachable (assignedSystem snappy) (fun c i env => fetchesForward c i env = true ∧
      joinsCaughtUp c i env = true) c) :
    ∀ id ∈ c.shared.ps.isr, id ≠ c.shared.ps.leaderBrokerID →
      ∃ recorded, c.shared.ps.replicaLEO id = some recorded ∧ c.shared.ps.hwm ≤ recorded := by
  refine (reachable_local (fun s => HoldsCommitted s.ps) (fun _ t => ¬ t.addsOnce) ?_ ?_ ?_ reached).1
  · intro s assigned id member follower
    rw [assigned.isr] at member
    exact absurd (List.mem_singleton.mp member) follower
  · intro s t _ new
    cases new <;> exact id
  · intro c i env t s' t' before at_i permitted moves holds several
    have low := (run_ordered (assigned_free before)).1.low
    have rule := (system_trans moves).2
    have stepped := (system_step.mp moves).2.2
    refine ⟨step_holds stepped several low ?_ ?_ holds, step_notOnce rule, fun u _ old => old⟩
    · rintro follower upto rfl recorded found
      have forward := permitted.1
      simpa only [fetchesForward, at_i, found, Option.all_some, decide_eq_true_eq] using forward
    · rintro snap r todo changed rfl joins
      have caught := permitted.2
      simpa only [joinsCaughtUp, at_i, joins, Bool.not_true, Bool.false_or] using caught

theorem newPartition_assigned (brokerID : Int) (replicas : List Int) (minInsync : Option Int) :
    Assigned (newPartition brokerID replicas [brokerID] minInsync) where
  fresh := newPartition_fresh brokerID replicas [brokerID] minInsync
  isr := rfl
  replicaLEO := rfl

theorem replicating_spawns {request : ProduceRequest} {leo : Int} {rest : List (Event Task Env)}
    (quiet : ∀ t, .spawn t ∉ rest) (t : Task)
    (member : .spawn t ∈ .spawn (.arrive request) :: .spawn (.replicaFetch 2 leo) :: .spawn (.tick 10) :: rest) :
    Replicating t := by
  simp only [List.mem_cons, Event.spawn.injEq, quiet t, or_false] at member
  rcases member with rfl | rfl | rfl
  · exact .produce _
  · exact .fetch 2 leo
  · exact .tick 10

/-- Follower 2 fetches up to the end of the log and joins. -/
theorem insync_committed_joined : ∃ c, Reachable (assignedSystem fun _ => none)
      (fun c i env => fetchesForward c i env = true ∧ joinsCaughtUp c i env = true) c ∧
    2 ∈ c.shared.ps.isr ∧ c.shared.ps.hwm = 1 ∧ ∃ recorded, c.shared.ps.replicaLEO 2 = some recorded ∧
      1 ≤ recorded := by
  obtain ⟨c, reached, joined⟩ := exec_reaches (assignedSystem fun _ => none)
    (fun c i env (checked : (fetchesForward c i env && joinsCaughtUp c i env) = true) =>
      Bool.and_eq_true_iff.mp checked)
    (.spawn (.arrive ⟨1, some (soloBatch 7 0 0)⟩) :: .spawn (.replicaFetch 2 1) :: .spawn (.tick 10) ::
      (List.replicate 6 (.act 0 calm) ++ List.replicate 2 (.act 1 calm) ++ List.replicate 5 (.act 2 calm)))
    (fun c => decide (2 ∈ c.shared.ps.isr ∧ c.shared.ps.hwm = 1 ∧ 2 ≠ c.shared.ps.leaderBrokerID))
    (newPartition_assigned 1 [1, 2] none)
    (replicating_spawns (by simp))
    (by decide +kernel)
  obtain ⟨member, hwm, follower⟩ := of_decide_eq_true joined
  obtain ⟨recorded, found, bound⟩ := insync_committed (fun _ => none) c reached 2 member follower
  exact ⟨c, reached, member, hwm, recorded, found, hwm ▸ bound⟩

/-- Follower 2 has caught up with the empty log when the tick takes its snapshot; a record is appended and
committed by the leader alone before the tick adds the follower. -/
theorem insync_behind : ∃ c, Reachable (assignedSystem fun _ => none) (fun c i env => fetchesForward c i env = true) c ∧
    2 ∈ c.shared.ps.isr ∧ 2 ≠ c.shared.ps.leaderBrokerID ∧ c.shared.ps.replicaLEO 2 = some 0 ∧ c.shared.ps.hwm = 1 := by
  obtain ⟨c, reached, joined⟩ := exec_reaches (assignedSystem fun _ => none)
    (fun c i env (checked : fetchesForward c i env = true) => checked)
    (.spawn (.arrive ⟨1, some (soloBatch 7 0 0)⟩) :: .spawn (.replicaFetch 2 0) :: .spawn (.tick 10) ::
      (List.replicate 2 (.act 1 calm) ++ [.act 2 calm] ++ List.replicate 6 (.act 0 calm) ++
        List.replicate 4 (.act 2 calm)))
    (fun c => decide (2 ∈ c.shared.ps.isr ∧ 2 ≠ c.shared.ps.leaderBrokerID ∧ c.shared.ps.replicaLEO 2 = some 0 ∧
      c.shared.ps.hwm = 1))
    (newPartition_assigned 1 [1, 2] none)
    (replicating_spawns (by simp))
    (by decide +kernel)
  obtain ⟨member, follower, recorded, hwm⟩ := of_decide_eq_true joined
  exact ⟨c, reached, member, follower, recorded, hwm⟩

end KafGo.Partition
