import KafGo.Partition.Waiters

/-!
# A tick of the ISR manager

`tick` drops the followers that lag, adds the replicas that have caught up, recomputes the high watermark and
only then looks at `min.insync.replicas`. Recomputing over the smaller set can release waiters that the check
after it would have failed.
-/

namespace KafGo.Partition
open Lib Coordinator Protocol Storage

def shrinkLoop (snap : PartitionSnapshot) (now lagMax : Int) (todo : List Int) (ps : PartitionState) (changed : Bool) :
    PartitionState × Bool :=
  todo.foldl (fun (ps, changed) f =>
    if shrinks snap now lagMax f then (ps.removeFromISR f, true) else (ps, changed)) (ps, changed)

def expandLoop (snap : PartitionSnapshot) (todo : List Int) (ps : PartitionState) (changed : Bool) :
    PartitionState × Bool :=
  todo.foldl (fun (ps, changed) r =>
    if expands snap r then (ps.addToISR r, true) else (ps, changed)) (ps, changed)

namespace Leader

/-- `AdvanceHWM` with nothing in between; `none` is a panic on a channel. -/
def advanceHWM (s : Leader) : Option Leader :=
  if s.ps.advanced then
    (s.purgatory.completeUpTo s.ps.advanceHWM.hwm).map fun p => { s with ps := s.ps.advanceHWM, purgatory := p }
  else some { s with ps := s.ps.advanceHWM }

def checkMinISR (s : Leader) : Option Leader :=
  if s.topicKnown && s.underMinISR then
    (s.purgatory.failAll errNotEnoughReplicasAfterAppend).map fun p => { s with purgatory := p }
  else some s

/-- One tick on this partition. The partition record that is published in between goes to another log. -/
def tick (s : Leader) (now lagMax : Int) : Option Leader :=
  let snap := s.ps.snapshot
  let (ps, changed) := shrinkLoop snap now lagMax snap.isr s.ps false
  let (ps, changed) := expandLoop snap snap.replicas ps changed
  let s := { s with ps := ps }
  if changed then s.advanceHWM.bind checkMinISR else some s

end Leader

theorem shrinkLoop_cons (snap : PartitionSnapshot) (now lagMax f : Int) (todo : List Int) (ps : PartitionState)
    (changed : Bool) : shrinkLoop snap now lagMax (f :: todo) ps changed =
      if shrinks snap now lagMax f then shrinkLoop snap now lagMax todo (ps.removeFromISR f) true
      else shrinkLoop snap now lagMax todo ps changed := by
  unfold shrinkLoop
  rw [List.foldl_cons]
  dsimp only
  split <;> rfl

theorem expandLoop_cons (snap : PartitionSnapshot) (r : Int) (todo : List Int) (ps : PartitionState) (changed : Bool) :
    expandLoop snap (r :: todo) ps changed =
      if expands snap r then expandLoop snap todo (ps.addToISR r) true else expandLoop snap todo ps changed := by
  unfold expandLoop
  rw [List.foldl_cons]
  dsimp only
  split <;> rfl

section Alone

variable {snappy : Bytes → Option Bytes} {env : Env}

theorem shrink_alone (snap : PartitionSnapshot) (now lagMax : Int) (todo : List Int) :
    ∀ (s : Leader) (changed : Bool), s.crash = none →
      Alone (leaderSystem snappy) env s (.shrink snap now lagMax todo changed)
        { s with ps := (shrinkLoop snap now lagMax todo s.ps changed).1 }
        (.expand snap snap.replicas (shrinkLoop snap now lagMax todo s.ps changed).2) := by
  induction todo with
  | nil =>
    intro s changed up
    exact .next (system_step.mpr ⟨up, rfl, rfl⟩) (.here _ _)
  | cons f todo ih =>
    intro s changed up
    by_cases lags : shrinks snap now lagMax f = true
    · rw [shrinkLoop_cons, if_pos lags]
      exact .next (system_step.mpr ⟨up, rfl, if_pos lags⟩) (ih { s with ps := s.ps.removeFromISR f } true up)
    · rw [shrinkLoop_cons, if_neg lags]
      exact .next (system_step.mpr ⟨up, rfl, if_neg lags⟩) (ih s changed up)

theorem expand_alone (snap : PartitionSnapshot) (flag : Bool) (todo : List Int) :
    ∀ (s : Leader) (changed : Bool), s.crash = none → (expandLoop snap todo s.ps changed).2 = flag →
      Alone (leaderSystem snappy) env s (.expand snap todo changed)
        { s with ps := (expandLoop snap todo s.ps changed).1 } (if flag then .advance .checkMinISR else .finished) := by
  induction todo with
  | nil =>
    rintro s changed up rfl
    exact .next (system_step.mpr ⟨up, rfl, rfl⟩) (.here _ _)
  | cons r todo ih =>
    intro s changed up flagged
    rw [expandLoop_cons] at flagged ⊢
    by_cases joins : expands snap r = true
    · rw [if_pos joins] at flagged ⊢
      exact .next (system_step.mpr ⟨up, rfl, if_pos joins⟩) (ih { s with ps := s.ps.addToISR r } true up flagged)
    · rw [if_neg joins] at flagged ⊢
      exact .next (system_step.mpr ⟨up, rfl, if_neg joins⟩) (ih s changed up flagged)

theorem advance_alone {s s' : Leader} (next : After) (result : s.advanceHWM = some s') (up : s.crash = none) :
    s'.crash = none ∧ Alone (leaderSystem snappy) env s (.advance next) s' next.task := by
  unfold Leader.advanceHWM at result
  by_cases higher : s.ps.advanced = true
  · rw [if_pos higher] at result
    obtain ⟨p, completes, rfl⟩ := Option.map_eq_some_iff.mp result
    refine ⟨up, .next (system_step.mpr ⟨up, rfl, by simp only [step, higher, if_true]; rfl⟩) ?_⟩
    refine .next (system_step.mpr ⟨up, rfl, ?_⟩) (.here _ next.task)
    simp only [step, completes]
    rfl
  · rw [if_neg higher] at result
    obtain rfl := Option.some.inj result
    refine ⟨up, .next (system_step.mpr ⟨up, rfl, ?_⟩) (.here _ next.task)⟩
    simp only [step, higher, if_false, Bool.false_eq_true]

theorem checkMinISR_alone {s s' : Leader} (up : s.crash = none) (result : s.checkMinISR = some s') :
    Alone (leaderSystem snappy) env s .checkMinISR s' .finished := by
  unfold Leader.checkMinISR at result
  by_cases few : (s.topicKnown && s.underMinISR) = true
  · rw [if_pos few] at result
    obtain ⟨p, fails, rfl⟩ := Option.map_eq_some_iff.mp result
    refine .next (system_step.mpr ⟨up, rfl, by simp only [step, few, if_true]; rfl⟩) ?_
    refine .next (system_step.mpr ⟨up, rfl, ?_⟩) (.here _ _)
    simp only [step, fails]
    rfl
  · rw [if_neg few] at result
    obtain rfl := Option.some.inj result
    refine .next (system_step.mpr ⟨up, rfl, ?_⟩) (.here _ _)
    simp only [step, few, if_false, Bool.false_eq_true]

/-- The tick as a function is what its task does when no other task interferes. -/
theorem tick_alone {s s' : Leader} {lagMax : Int} (up : s.crash = none) (result : s.tick env.now lagMax = some s') :
    Alone (leaderSystem snappy) env s (.tick lagMax) s' .finished := by
  unfold Leader.tick at result
  dsimp only at result
  refine .next (system_step.mpr ⟨up, rfl, rfl⟩) (alone_trans (shrink_alone _ _ _ _ s false up) ?_)
  split at result
  · rename_i changed
    obtain ⟨s₁, advances, checks⟩ := Option.bind_eq_some_iff.mp result
    obtain ⟨up₁, advanced⟩ : s₁.crash = none ∧
        Alone (leaderSystem snappy) env _ (.advance .checkMinISR) s₁ .checkMinISR :=
      advance_alone .checkMinISR advances up
    exact alone_trans (expand_alone _ true _ _ _ up changed)
      (alone_trans advanced (checkMinISR_alone up₁ checks))
  · rename_i unchanged
    obtain rfl := Option.some.inj result
    exact expand_alone _ false _ _ _ up (Bool.eq_false_of_not_eq_true unchanged)

theorem tick_reached {s s' : Leader} {lagMax : Int} {tasks : List Task} {i : Nat} (reached : Run snappy ⟨s, tasks⟩)
    (at_i : tasks[i]? = some (.tick lagMax)) (up : s.crash = none) (result : s.tick env.now lagMax = some s') :
    Run snappy ⟨s', tasks.set i .finished⟩ :=
  alone_reachable (tick_alone up result) reached at_i

end Alone

structure SameBut (ps ps' : PartitionState) : Prop where
  leaderBrokerID : ps'.leaderBrokerID = ps.leaderBrokerID
  leo : ps'.leo = ps.leo
  hwm : ps'.hwm = ps.hwm
  replicaLEO : ps'.replicaLEO = ps.replicaLEO

theorem shrinkLoop_spec (snap : PartitionSnapshot) (now lagMax : Int) (todo : List Int) :
    ∀ (ps : PartitionState) (changed : Bool),
      SameBut ps (shrinkLoop snap now lagMax todo ps changed).1 ∧
      (∀ id, id ∈ (shrinkLoop snap now lagMax todo ps changed).1.isr ↔
        id ∈ ps.isr ∧ ¬ (id ∈ todo ∧ shrinks snap now lagMax id = true)) ∧
      ((shrinkLoop snap now lagMax todo ps changed).2 = true ↔
        changed = true ∨ ∃ f ∈ todo, shrinks snap now lagMax f = true) := by
  induction todo with
  | nil =>
    intro ps changed
    exact ⟨⟨rfl, rfl, rfl, rfl⟩, fun id => by simp [shrinkLoop], by simp [shrinkLoop]⟩
  | cons f todo ih =>
    intro ps changed
    by_cases lags : shrinks snap now lagMax f = true
    · have unfolded := (shrinkLoop_cons snap now lagMax f todo ps changed).trans (if_pos lags)
      obtain ⟨same, members, flag⟩ := ih (ps.removeFromISR f) true
      rw [unfolded]
      refine ⟨⟨same.1, same.2, same.3, same.4⟩, fun id => ?_, ?_⟩
      · rw [members id]
        simp only [PartitionState.removeFromISR, List.mem_filter, decide_eq_true_eq, List.mem_cons]
        by_cases here : id = f
        · subst here
          simp [lags]
        · simp [here]
      · rw [flag]
        exact ⟨fun _ => Or.inr ⟨f, List.mem_cons_self, lags⟩, fun _ => Or.inl rfl⟩
    · have unfolded := (shrinkLoop_cons snap now lagMax f todo ps changed).trans (if_neg lags)
      obtain ⟨same, members, flag⟩ := ih ps changed
      rw [unfolded]
      refine ⟨same, fun id => ?_, ?_⟩
      · rw [members id, List.mem_cons]
        constructor
        · rintro ⟨inside, stays⟩
          refine ⟨inside, ?_⟩
          rintro ⟨rfl | later, lagging⟩
          · exact lags lagging
          · exact stays ⟨later, lagging⟩
        · rintro ⟨inside, stays⟩
          exact ⟨inside, fun lagging => stays ⟨Or.inr lagging.1, lagging.2⟩⟩
      · rw [flag]
        simp [lags]

theorem expandLoop_spec (snap : PartitionSnapshot) (todo : List Int) :
    ∀ (ps : PartitionState) (changed : Bool),
      SameBut ps (expandLoop snap todo ps changed).1 ∧
      (∀ id, id ∈ (expandLoop snap todo ps changed).1.isr ↔ id ∈ ps.isr ∨ (id ∈ todo ∧ expands snap id = true)) ∧
      (changed = true → (expandLoop snap todo ps changed).2 = true) := by
  induction todo with
  | nil =>
    intro ps changed
    exact ⟨⟨rfl, rfl, rfl, rfl⟩, fun id => by simp [expandLoop], fun on => on⟩
  | cons r todo ih =>
    intro ps changed
    by_cases joins : expands snap r = true
    · have unfolded := (expandLoop_cons snap r todo ps changed).trans (if_pos joins)
      obtain ⟨same, members, flag⟩ := ih (ps.addToISR r) true
      rw [unfolded]
      refine ⟨⟨same.1, same.2, same.3, same.4⟩, fun id => ?_, fun _ => flag rfl⟩
      rw [members id]
      simp only [PartitionState.addToISR, List.mem_append, List.mem_filter, decide_eq_true_eq, List.mem_cons]
      by_cases here : id = r
      · subst here
        simp [joins]
      · simp [here]
    · have unfolded := (expandLoop_cons snap r todo ps changed).trans (if_neg joins)
      obtain ⟨same, members, flag⟩ := ih ps changed
      rw [unfolded]
      refine ⟨same, fun id => ?_, flag⟩
      rw [members id, List.mem_cons]
      constructor
      · rintro (inside | ⟨later, joined⟩)
        · exact Or.inl inside
        · exact Or.inr ⟨Or.inr later, joined⟩
      · rintro (inside | ⟨rfl | later, joined⟩)
        · exact Or.inl inside
        · exact absurd joined joins
        · exact Or.inr ⟨later, joined⟩

/-! ### What a tick does to a parked waiter -/

/-- The leader, or a follower that is in sync, does not have the offset yet. -/
def Behind (ps : PartitionState) (required : Int) : Prop :=
  ps.leo ≤ required ∨ ∃ id, id ≠ ps.leaderBrokerID ∧ id ∈ ps.isr ∧ ps.recordedLEO id ≤ required

theorem behind_iff (ps : PartitionState) (required : Int) : Behind ps required ↔ ps.newHWM ≤ required := by
  have above := ps.lt_newHWM_iff required
  constructor
  · intro behind
    by_contra high
    obtain ⟨long, ahead⟩ := above.mp (by omega)
    rcases behind with short | ⟨id, follower, member, low⟩
    · omega
    · have reached := ahead id member follower
      omega
  · intro low
    by_contra free
    obtain ⟨long, ahead⟩ := not_or.mp free
    have reached : required < ps.newHWM := by
      refine above.mpr ⟨by omega, fun id member follower => ?_⟩
      by_contra late
      exact ahead ⟨id, follower, member, by omega⟩
    omega

/-- Members of the in-sync set after a tick: kept, or added. -/
def InSyncAfter (ps : PartitionState) (now lagMax id : Int) : Prop :=
  (id ∈ ps.isr ∧ ¬ shrinks ps now lagMax id = true) ∨ (id ∈ ps.replicas ∧ expands ps id = true)

/-- The leader, or a follower that is in sync after the tick, does not have the offset yet. -/
def HeldBack (ps : PartitionState) (now lagMax required : Int) : Prop :=
  ps.leo ≤ required ∨ ∃ id, id ≠ ps.leaderBrokerID ∧ InSyncAfter ps now lagMax id ∧ ps.recordedLEO id ≤ required

def afterLoops (ps : PartitionState) (now lagMax : Int) : PartitionState :=
  (expandLoop ps ps.replicas (shrinkLoop ps now lagMax ps.isr ps false).1
    (shrinkLoop ps now lagMax ps.isr ps false).2).1

theorem afterLoops_same (ps : PartitionState) (now lagMax : Int) : SameBut ps (afterLoops ps now lagMax) := by
  obtain ⟨first, _, _⟩ := shrinkLoop_spec ps now lagMax ps.isr ps false
  obtain ⟨second, _, _⟩ := expandLoop_spec ps ps.replicas (shrinkLoop ps now lagMax ps.isr ps false).1
    (shrinkLoop ps now lagMax ps.isr ps false).2
  exact ⟨second.1.trans first.1, second.2.trans first.2, second.3.trans first.3, second.4.trans first.4⟩

theorem afterLoops_isr (ps : PartitionState) (now lagMax id : Int) :
    id ∈ (afterLoops ps now lagMax).isr ↔ InSyncAfter ps now lagMax id := by
  obtain ⟨_, kept, _⟩ := shrinkLoop_spec ps now lagMax ps.isr ps false
  obtain ⟨_, members, _⟩ := expandLoop_spec ps ps.replicas (shrinkLoop ps now lagMax ps.isr ps false).1
    (shrinkLoop ps now lagMax ps.isr ps false).2
  unfold afterLoops InSyncAfter
  rw [members id, kept id]
  constructor
  · rintro (⟨inside, stays⟩ | joined)
    · exact Or.inl ⟨inside, fun lags => stays ⟨inside, lags⟩⟩
    · exact Or.inr joined
  · rintro (⟨inside, stays⟩ | joined)
    · exact Or.inl ⟨inside, fun lags => stays lags.2⟩
    · exact Or.inr joined

theorem heldBack_iff (ps : PartitionState) (now lagMax required : Int) :
    HeldBack ps now lagMax required ↔ Behind (afterLoops ps now lagMax) required := by
  have same := afterLoops_same ps now lagMax
  have recorded : (afterLoops ps now lagMax).recordedLEO = ps.recordedLEO := by
    funext id
    unfold PartitionState.recordedLEO
    rw [same.replicaLEO]
  unfold HeldBack Behind
  rw [same.leo, same.leaderBrokerID, recorded]
  simp only [afterLoops_isr]

theorem advanceHWM_parked {s : Leader} (wf : s.purgatory.WellFormed) :
    ∃ s', s.advanceHWM = some s' ∧ s'.ps = s.ps.advanceHWM ∧ s'.topicKnown = s.topicKnown ∧
      s'.minInsync = s.minInsync ∧ s'.purgatory.WellFormed ∧
      ∀ (w : Nat) (cell : PartitionAppendWaiter), w ∈ s.purgatory.waiters → s.purgatory.heap[w]? = some cell →
        s.ps.hwm ≤ cell.requiredOffset →
        (cell.requiredOffset < s.ps.newHWM → s'.purgatory.heap[w]? = some { cell with done := ⟨[.completed], 1⟩ }) ∧
        (s.ps.newHWM ≤ cell.requiredOffset → s'.purgatory.heap[w]? = some cell ∧ w ∈ s'.purgatory.waiters) := by
  unfold Leader.advanceHWM
  by_cases higher : s.ps.advanced = true
  · have level : s.ps.advanceHWM.hwm = s.ps.newHWM := by
      unfold PartitionState.advanceHWM
      rw [if_pos higher]
    obtain ⟨p, completes, resolved⟩ := PartitionPurgatory.completeUpTo_resolved wf s.ps.advanceHWM.hwm
    rw [if_pos higher, completes]
    refine ⟨_, rfl, rfl, rfl, rfl, PartitionPurgatory.resolved_wellFormed wf resolved, ?_⟩
    intro w cell member found _
    dsimp only
    rw [resolved.heap w, found, Option.map_some, resolved.waiters, List.mem_filter, required_of_cell found, level]
    constructor
    · intro below
      rw [if_pos ⟨member, below⟩]
    · intro above
      rw [if_neg (by rintro ⟨_, below⟩; omega)]
      exact ⟨rfl, member, by simpa using above⟩
  · have level : s.ps.newHWM ≤ s.ps.hwm := by
      by_contra above
      exact higher (decide_eq_true (by omega))
    rw [if_neg higher]
    refine ⟨_, rfl, rfl, rfl, rfl, wf, ?_⟩
    intro w cell member found parked
    exact ⟨fun below => by omega, fun _ => ⟨found, member⟩⟩

theorem checkMinISR_parked {s : Leader} (wf : s.purgatory.WellFormed) :
    ∃ s', s.checkMinISR = some s' ∧ s'.ps = s.ps ∧
      ∀ (w : Nat) (cell : PartitionAppendWaiter), s.purgatory.heap[w]? = some cell →
        s'.purgatory.heap[w]? = some (if (s.topicKnown && s.underMinISR) = true ∧ w ∈ s.purgatory.waiters then
          { cell with done := ⟨[.failed errNotEnoughReplicasAfterAppend], 1⟩ } else cell) := by
  unfold Leader.checkMinISR
  by_cases few : (s.topicKnown && s.underMinISR) = true
  · obtain ⟨p, fails, resolved⟩ := PartitionPurgatory.failAll_resolved wf errNotEnoughReplicasAfterAppend
    rw [if_pos few, fails]
    refine ⟨_, rfl, rfl, ?_⟩
    intro w cell found
    dsimp only
    rw [resolved.heap w, found, Option.map_some]
    simp only [few, and_true, true_and]
  · rw [if_neg few]
    refine ⟨_, rfl, rfl, ?_⟩
    intro w cell found
    rw [if_neg (by rintro ⟨enough, _⟩; exact few enough)]
    exact found

theorem tick_removes {s : Leader} {now lagMax : Int} (removes : ∃ f ∈ s.ps.isr, shrinks s.ps now lagMax f = true) :
    s.tick now lagMax = ({ s with ps := afterLoops s.ps now lagMax } : Leader).advanceHWM.bind Leader.checkMinISR := by
  have changed : (expandLoop s.ps s.ps.replicas (shrinkLoop s.ps now lagMax s.ps.isr s.ps false).1
      (shrinkLoop s.ps now lagMax s.ps.isr s.ps false).2).2 = true :=
    (expandLoop_spec _ _ _ _).2.2 ((shrinkLoop_spec s.ps now lagMax s.ps.isr s.ps false).2.2.mpr (Or.inr removes))
  unfold Leader.tick
  simp only [PartitionState.snapshot, changed, if_true]
  rfl

/-- From its `AdvanceHWM` on a tick fails the waiters that are held back, if there are too few in-sync replicas, and
completes the others. -/
theorem advance_check_parked {s : Leader} (wf : s.purgatory.WellFormed) :
    ∃ s', s.advanceHWM.bind Leader.checkMinISR = some s' ∧ s'.ps = s.ps.advanceHWM ∧
      ((s'.ps.isr.length : Int) < s.getMinInsyncReplicas →
        ∀ (w : Nat) (cell : PartitionAppendWaiter), w ∈ s.purgatory.waiters → s.purgatory.heap[w]? = some cell →
          s.ps.hwm ≤ cell.requiredOffset → ∃ cell', s'.purgatory.heap[w]? = some cell' ∧
            (cell'.done = ⟨[.failed errNotEnoughReplicasAfterAppend], 1⟩ ↔
              s.topicKnown = true ∧ Behind s.ps cell.requiredOffset) ∧
            (cell'.done = ⟨[.completed], 1⟩ ↔ ¬ Behind s.ps cell.requiredOffset)) := by
  obtain ⟨s₁, advances, ps₁, known₁, min₁, wf₁, moved⟩ := advanceHWM_parked wf
  obtain ⟨s₂, checks, ps₂, failed⟩ := checkMinISR_parked wf₁
  refine ⟨s₂, by rw [advances]; exact checks, ps₂.trans ps₁, ?_⟩
  intro few w cell member found parked
  have under : s₁.underMinISR = true := by
    have narrow := wrapSigned_le 16 s₁.ps.isr.length
    have least : s₁.getMinInsyncReplicas = s.getMinInsyncReplicas := by
      unfold Leader.getMinInsyncReplicas
      rw [min₁]
    rw [ps₂] at few
    unfold Leader.underMinISR
    rw [least]
    exact decide_eq_true (by omega)
  obtain ⟨below, above⟩ := moved w cell member found parked
  have unset := wf.unset member found
  rw [behind_iff]
  by_cases held : s.ps.newHWM ≤ cell.requiredOffset
  · obtain ⟨kept, waiting⟩ := above held
    refine ⟨_, failed w cell kept, ?_, ?_⟩
    · rw [under, Bool.and_true, known₁]
      by_cases known : s.topicKnown = true
      · simp [known, waiting, held]
      · simp [known, unset, DoneChan.empty]
    · rw [under, Bool.and_true, known₁]
      by_cases known : s.topicKnown = true
      · simp [known, waiting, held]
      · simp [known, unset, held, DoneChan.empty]
  · have completed := below (show cell.requiredOffset < s.ps.newHWM by omega)
    have gone : w ∉ s₁.purgatory.waiters := by
      intro waiting
      cases wf₁.unset waiting completed
    refine ⟨_, failed w _ completed, ?_, ?_⟩
    · rw [if_neg (by rintro ⟨_, waiting⟩; exact gone waiting)]
      simp [held]
    · rw [if_neg (by rintro ⟨_, waiting⟩; exact gone waiting)]
      simp [held]

/-- A tick that drops followers and leaves fewer in-sync replicas than the minimum fails a waiter that was
parked at or above the high watermark exactly if the topic is known and the waiter is held back; otherwise
the waiter is completed with success by this very tick. The same holds, with the in-sync set as it is then, from the
`AdvanceHWM` of a tick on whose loops have interleaved with anything. -/
theorem tick_fails_parked_iff (snappy : Bytes → Option Bytes) (c : Config Leader Task) (reached : Run snappy c) :
    (∀ now lagMax : Int, (∃ f ∈ c.shared.ps.isr, shrinks c.shared.ps now lagMax f = true) →
      ∃ s', c.shared.tick now lagMax = some s' ∧
        ((s'.ps.isr.length : Int) < c.shared.getMinInsyncReplicas →
          ∀ (w : Nat) (cell : PartitionAppendWaiter), w ∈ c.shared.purgatory.waiters →
            c.shared.purgatory.heap[w]? = some cell → c.shared.ps.hwm ≤ cell.requiredOffset →
            ∃ cell', s'.purgatory.heap[w]? = some cell' ∧
              (cell'.done = ⟨[.failed errNotEnoughReplicasAfterAppend], 1⟩ ↔
                c.shared.topicKnown = true ∧ HeldBack c.shared.ps now lagMax cell.requiredOffset) ∧
              (cell'.done = ⟨[.completed], 1⟩ ↔ ¬ HeldBack c.shared.ps now lagMax cell.requiredOffset))) ∧
    ∀ i : Nat, c.tasks[i]? = some (.advance .checkMinISR) → c.shared.crash = none →
      ∃ s', Run snappy ⟨s', c.tasks.set i .finished⟩ ∧ s'.ps = c.shared.ps.advanceHWM ∧
        ((s'.ps.isr.length : Int) < c.shared.getMinInsyncReplicas →
          ∀ (w : Nat) (cell : PartitionAppendWaiter), w ∈ c.shared.purgatory.waiters →
            c.shared.purgatory.heap[w]? = some cell → c.shared.ps.hwm ≤ cell.requiredOffset →
            ∃ cell', s'.purgatory.heap[w]? = some cell' ∧
              (cell'.done = ⟨[.failed errNotEnoughReplicasAfterAppend], 1⟩ ↔
                c.shared.topicKnown = true ∧ Behind c.shared.ps cell.requiredOffset) ∧
              (cell'.done = ⟨[.completed], 1⟩ ↔ ¬ Behind c.shared.ps cell.requiredOffset)) := by
  have wf := (run_guarded reached).1.1.wf
  constructor
  · intro now lagMax removes
    have same := afterLoops_same c.shared.ps now lagMax
    obtain ⟨s', ticked, _, outcome⟩ :=
      advance_check_parked (s := { c.shared with ps := afterLoops c.shared.ps now lagMax }) wf
    refine ⟨s', (tick_removes removes).trans ticked, fun few w cell member found parked => ?_⟩
    rw [heldBack_iff]
    exact outcome few w cell member found (by rw [same.hwm]; exact parked)
  · intro i at_i up
    obtain ⟨s', ticked, ps, outcome⟩ := advance_check_parked wf
    refine ⟨s', ?_, ps, outcome⟩
    obtain ⟨s₁, advances, checks⟩ := Option.bind_eq_some_iff.mp ticked
    obtain ⟨up₁, advanced⟩ : s₁.crash = none ∧ Alone (leaderSystem snappy) calm _ _ _ _ :=
      advance_alone .checkMinISR advances up
    exact alone_reachable (alone_trans advanced (checkMinISR_alone up₁ checks)) reached at_i

def parkingEvents : List (Event Task Env) :=
  [.spawn (.replicaFetch 3 0), .act 0 calm, .act 0 calm, .spawn (.arrive ⟨-1, some (soloBatch 7 0 0)⟩)] ++
    List.replicate 9 (.act 1 calm)

def interleavedEvents : List (Event Task Env) :=
  parkingEvents ++ [.spawn (.tick 10), .act 2 calm, .act 2 calm, .spawn (.replicaFetch 3 0), .act 3 calm,
    .act 3 calm] ++ List.replicate 7 (.act 2 calm)

theorem parkingEvents_spawned (t : Task) (member : .spawn t ∈ parkingEvents) : Spawned t := by
  simp only [parkingEvents, List.cons_append, List.nil_append, List.mem_cons, Event.spawn.injEq, reduceCtorEq,
    false_or] at member
  rcases member with rfl | rfl | later
  · exact .fetch 3 0
  · exact .produce _
  · exact absurd (List.eq_of_mem_replicate later) nofun

theorem interleavedEvents_spawned (t : Task) (member : .spawn t ∈ interleavedEvents) : Spawned t := by
  rcases List.mem_append.mp member with front | later
  · rcases List.mem_append.mp front with before | tick
    · exact parkingEvents_spawned t before
    · simp only [List.mem_cons, Event.spawn.injEq, reduceCtorEq, false_or, List.not_mem_nil, or_false] at tick
      rcases tick with rfl | rfl
      · exact .tick 10
      · exact .fetch 3 0
  · exact absurd (List.eq_of_mem_replicate later) nofun

def heldAt (c : Config Leader Task) : Bool :=
  match c.shared.tick 5 10, (c.shared.purgatory.heap[0]? : Option PartitionAppendWaiter) with
  | some s', some cell => decide (2 ∈ c.shared.ps.isr ∧ shrinks c.shared.ps 5 10 2 = true ∧
      (s'.ps.isr.length : Int) < c.shared.getMinInsyncReplicas ∧ 0 ∈ c.shared.purgatory.waiters ∧
      c.shared.ps.hwm ≤ cell.requiredOffset ∧ c.shared.topicKnown = true ∧ 3 ≠ c.shared.ps.leaderBrokerID ∧
      3 ∈ c.shared.ps.isr ∧ ¬ shrinks c.shared.ps 5 10 3 = true ∧ c.shared.ps.recordedLEO 3 ≤ cell.requiredOffset)
  | _, _ => false

def advancing (c : Config Leader Task) : Bool :=
  match (c.tasks[2]? : Option Task), (c.shared.purgatory.heap[0]? : Option PartitionAppendWaiter) with
  | some (.advance .checkMinISR), some cell => decide (c.shared.crash = none ∧
      (c.shared.ps.advanceHWM.isr.length : Int) < c.shared.getMinInsyncReplicas ∧ 0 ∈ c.shared.purgatory.waiters ∧
      c.shared.ps.hwm ≤ cell.requiredOffset ∧ c.shared.topicKnown = true ∧ 3 ≠ c.shared.ps.leaderBrokerID ∧
      3 ∈ c.shared.ps.isr ∧ c.shared.ps.recordedLEO 3 ≤ cell.requiredOffset)
  | _, _ => false

/-- Follower 2 is dropped; follower 3 stays in sync and holds the waiter back, so the tick fails it, also with a fetch
in between. -/
theorem tick_fails_parked_held :
    (∃ c s' cell', Run (fun _ => none) c ∧ c.shared.tick 5 10 = some s' ∧ s'.purgatory.heap[0]? = some cell' ∧
      cell'.done = ⟨[.failed errNotEnoughReplicasAfterAppend], 1⟩) ∧
    ∃ c s' cell', Run (fun _ => none) c ∧ c.tasks[2]? = some (.advance .checkMinISR) ∧
      Run (fun _ => none) ⟨s', c.tasks.set 2 .finished⟩ ∧ s'.purgatory.heap[0]? = some cell' ∧
      cell'.done = ⟨[.failed errNotEnoughReplicasAfterAppend], 1⟩ := by
  constructor
  · obtain ⟨c, reached, parked⟩ := exec_reaches (leaderSystem fun _ => none) unchecked_free parkingEvents heldAt
      (newPartition_fresh 1 [1, 2, 3] [1, 2, 3] (some 3)) parkingEvents_spawned (by decide +kernel)
    unfold heldAt at parked
    split at parked
    · rename_i s' cell ticked found
      obtain ⟨member, lags, few, waiting, high, known, follower, kept, current, behind⟩ := of_decide_eq_true parked
      obtain ⟨s'', ticked', outcome⟩ := (tick_fails_parked_iff (fun _ => none) c reached).1 5 10 ⟨2, member, lags⟩
      obtain rfl := Option.some.inj (ticked.symm.trans ticked')
      obtain ⟨cell', after, fails, _⟩ := outcome few 0 cell waiting found high
      exact ⟨c, s', cell', reached, ticked, after,
        fails.mpr ⟨known, Or.inr ⟨3, follower, Or.inl ⟨kept, current⟩, behind⟩⟩⟩
    · cases parked
  · obtain ⟨c, reached, parked⟩ := exec_reaches (leaderSystem fun _ => none) unchecked_free interleavedEvents advancing
      (newPartition_fresh 1 [1, 2, 3] [1, 2, 3] (some 3)) interleavedEvents_spawned (by decide +kernel)
    unfold advancing at parked
    split at parked
    · rename_i cell here found
      obtain ⟨up, few, waiting, high, known, follower, member, behind⟩ := of_decide_eq_true parked
      obtain ⟨s', after, ps, outcome⟩ := (tick_fails_parked_iff (fun _ => none) c reached).2 2 here up
      obtain ⟨cell', resolved, fails, _⟩ := outcome (by rw [ps]; exact few) 0 cell waiting found high
      exact ⟨c, s', cell', reached, here, after, resolved, fails.mpr ⟨known, Or.inr ⟨3, follower, member, behind⟩⟩⟩
    · cases parked

/-- The only follower is dropped and held the high watermark back; the tick completes the waiter with one
in-sync replica where two are required. -/
theorem tick_completes_parked : ∃ c s' cell cell', Run (fun _ => none) c ∧
    (∃ f ∈ c.shared.ps.isr, shrinks c.shared.ps 5 10 f = true) ∧ c.shared.tick 5 10 = some s' ∧
    (s'.ps.isr.length : Int) < c.shared.getMinInsyncReplicas ∧ 0 ∈ c.shared.purgatory.waiters ∧
    c.shared.purgatory.heap[0]? = some cell ∧ c.shared.ps.hwm ≤ cell.requiredOffset ∧
    s'.purgatory.heap[0]? = some cell' ∧ cell'.done = ⟨[.completed], 1⟩ := by
  obtain ⟨c, reached, parked⟩ := exec_reaches (leaderSystem fun _ => none) unchecked_free
    (.spawn (.arrive ⟨-1, some (soloBatch 7 0 0)⟩) :: List.replicate 9 (.act 0 calm))
    (fun c => match c.shared.tick 5 10, (c.shared.purgatory.heap[0]? : Option PartitionAppendWaiter) with
      | some s', some cell => match (s'.purgatory.heap[0]? : Option PartitionAppendWaiter) with
        | some cell' => decide (2 ∈ c.shared.ps.isr ∧ shrinks c.shared.ps 5 10 2 = true ∧
            (s'.ps.isr.length : Int) < c.shared.getMinInsyncReplicas ∧ 0 ∈ c.shared.purgatory.waiters ∧
            c.shared.ps.hwm ≤ cell.requiredOffset ∧ cell'.done = ⟨[.completed], 1⟩)
        | none => false
      | _, _ => false)
    (newPartition_fresh 1 [1, 2] [1, 2] (some 2)) (by simp [List.replicate]; exact Spawned.produce _)
    (by decide +kernel)
  split at parked
  · rename_i s' cell ticked found
    split at parked
    · rename_i cell' after
      obtain ⟨member, lags, few, waiting, high, completed⟩ := of_decide_eq_true parked
      exact ⟨c, s', cell, cell', reached, ⟨2, member, lags⟩, ticked, few, waiting, found, high, after, completed⟩
    · cases parked
  · cases parked

end KafGo.Partition
