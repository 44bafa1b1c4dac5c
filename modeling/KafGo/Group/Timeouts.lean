import KafGo.Group.Rounds

/-!
# Rebalance timeouts

`onRebalanceTimeout` removes the members that have not joined again and closes the barrier over the rest. It checks
the generation and nothing else: with no join parked it closes a barrier over nobody, and after the barrier has
closed it takes the members of the finished rebalance for late ones.
-/

namespace KafGo.Group
open Lib

/-! ### Panics -/

theorem GroupMeta.Consistent.late_timed {g : GroupMeta} (consistent : g.Consistent)
    (late : GroupMemberMetadata → Bool) :
    ¬ (g.members.filter late).any (fun m => m.sessionTimer.isNone) = true := by
  intro unset
  obtain ⟨m, member, none⟩ := List.any_eq_true.mp unset
  have set := consistent.timed m (List.mem_of_mem_filter member)
  rw [Option.isNone_iff_eq_none.mp none] at set
  cases set

namespace GroupHost

theorem stopIfSet_panicked (h : GroupHost) (timer : Option Nat) : (h.stopIfSet timer).panicked = h.panicked := by
  cases timer <;> rfl

theorem stopAll_panicked (members : List GroupMemberMetadata) (h : GroupHost) :
    (members.foldl (fun h m => h.stopIfSet m.sessionTimer) h).panicked = h.panicked := by
  induction members generalizing h with
  | nil => rfl
  | cons m members ih => exact (ih _).trans (stopIfSet_panicked h m.sessionTimer)

theorem resetSessionTimer_panicked (h : GroupHost) (groupId : String) (member : GroupMemberMetadata) :
    (h.resetSessionTimer groupId member).1.panicked = h.panicked := by
  unfold resetSessionTimer
  split <;> rfl

theorem transition_panicked (h : GroupHost) (p : Nat) (g : GroupMeta) :
    (h.transitionToPrepareRebalance p g).1.panicked = h.panicked := stopIfSet_panicked h g.rebalanceTimer

theorem close_panicked (h : GroupHost) (p : Nat) {g : GroupMeta}
    (parked : g.state = .preparingRebalance → g.pendingJoins ≠ []) :
    (h.maybeCloseJoinBarrier p g).1.panicked = h.panicked := by
  unfold maybeCloseJoinBarrier
  split
  · rfl
  · rename_i preparing
    split
    · rfl
    · split
      · rename_i none
        exact absurd none (parked (not_not.mp preparing))
      · exact stopIfSet_panicked h g.rebalanceTimer

theorem joinGroup_panicked (h : GroupHost) (q : JoinRequest) : (h.joinGroup q).1.panicked = h.panicked := by
  unfold joinGroup
  have made : (h.findOrCreate q.groupId q.protocolName).1.panicked = h.panicked := by
    unfold findOrCreate
    split <;> rfl
  generalize h.findOrCreate q.groupId q.protocolName = entry at made ⊢
  obtain ⟨h₁, p, g⟩ := entry
  dsimp only at made ⊢
  split
  · exact made
  · have enrolled : (h₁.enrol g q).1.panicked = h₁.panicked := resetSessionTimer_panicked h₁ g.groupId _
    generalize h₁.enrol g q = entry at enrolled ⊢
    obtain ⟨h₂, g₂⟩ := entry
    have parks : ∀ (h₃ : GroupHost) (g₃ : GroupMeta), h₃.panicked = h₂.panicked →
        (h₃.park p g₃ q.memberId).1.panicked = h.panicked := by
      intro h₃ g₃ same
      refine (close_panicked _ p ?_).trans (same.trans (enrolled.trans made))
      intro _ none
      cases List.append_eq_nil_iff.mp none with
      | intro _ last => cases last
    split
    · exact parks _ _ (transition_panicked h₂ p g₂)
    · exact parks _ _ rfl

theorem dropMember_panicked (h : GroupHost) (p : Nat) (g : GroupMeta) (memberId : String) :
    (h.dropMember p g memberId).panicked = h.panicked := by
  unfold dropMember
  dsimp only
  split
  · rfl
  · exact transition_panicked h p _

theorem leaveGroup_panicked (h : GroupHost) (groupId memberId : String) (timed : ∀ g ∈ h.store.heap, g.Consistent) :
    (h.leaveGroup groupId memberId).1.panicked = h.panicked := by
  unfold leaveGroup
  split
  · rfl
  · rename_i p g found
    split
    · rfl
    · rename_i member known
      have consistent := timed g (List.mem_of_getElem? (GroupStore.group_some.mp found).2)
      have set := consistent.timed member (lookupKey_some known).1
      split
      · rename_i unset
        rw [unset] at set
        cases set
      · exact dropMember_panicked _ p g memberId

theorem evictMember_panicked (h : GroupHost) (groupId memberId : String) :
    (h.evictMember groupId memberId).panicked = h.panicked := by
  unfold evictMember
  split
  · rfl
  · split
    · rfl
    · split
      · rfl
      · exact dropMember_panicked h _ _ memberId

theorem onRebalanceTimeout_panicked (h : GroupHost) (groupId : String) (expectedGeneration : Int)
    (timed : ∀ g ∈ h.store.heap, g.Consistent)
    (parked : ∀ p g, h.store.group groupId = some (p, g) → g.generationId = expectedGeneration →
      g.state = .preparingRebalance → g.pendingJoins ≠ []) :
    (h.onRebalanceTimeout groupId expectedGeneration).panicked = h.panicked := by
  unfold onRebalanceTimeout
  split
  · rfl
  · rename_i p g found
    have consistent := timed g (List.mem_of_getElem? (GroupStore.group_some.mp found).2)
    split
    · rfl
    · rename_i current
      dsimp only
      split
      · rename_i unset
        exact absurd unset (consistent.late_timed _)
      · refine (close_panicked _ p ?_).trans (stopAll_panicked _ h)
        exact parked p g found (not_not.mp current)

end GroupHost

/-- A rebalance timeout that finds its group still preparing finds a join parked. -/
def timeoutsJoined : Guard :=
  { Guard.free with expire := fun g => !(decide (g.state = .preparingRebalance) && g.pendingJoins.isEmpty) }

theorem step_panicked {h h' : GroupHost} {a : GroupAction} (timed : ∀ g ∈ h.store.heap, g.Consistent)
    (meets : timeoutsJoined.meets h a = true) (moves : step a h = some h') : h'.panicked = h.panicked := by
  cases step_moved moves with
  | heartbeat groupId memberId generationId =>
    unfold GroupHost.heartbeat
    split
    · rfl
    · split
      · rfl
      · split
        · rfl
        · exact h.resetSessionTimer_panicked _ _
  | joinGroup q => exact h.joinGroup_panicked q
  | leaveGroup groupId memberId => exact h.leaveGroup_panicked groupId memberId timed
  | syncGroup q =>
    unfold GroupHost.syncGroup
    repeat' split
    all_goals rfl
  | fire timer t => rfl
  | read callback g => rfl
  | evict callback groupId memberId at_c => exact (h.taken callback).evictMember_panicked groupId memberId
  | timeout callback groupId expectedGeneration at_c =>
    refine (h.taken callback).onRebalanceTimeout_panicked groupId expectedGeneration timed ?_
    intro p g found current preparing none
    have permitted := meets_callback at_c meets
    simp only [Guard.meetsCallback, found, decide_eq_true current, Bool.not_true, Bool.false_or, timeoutsJoined,
      preparing, none, List.isEmpty_nil, decide_true, Bool.and_true] at permitted
    cases permitted
  | cleanup callback groupId at_c =>
    unfold GroupHost.cleanup
    split
    · rfl
    · split <;> rfl

/-- In every run in which a rebalance timeout never finds a group that is preparing with no join parked, no
operation panics. -/
theorem never_panics (h : GroupHost) (reached : Guarded timeoutsJoined h) : h.panicked = false := by
  induction reached with
  | start first => rw [first]; rfl
  | act before meets moves ih =>
    exact (step_panicked (guarded_consistent before) meets moves).trans ih

/-- The first member does not join again within the timeout; the second one is answered. -/
theorem never_panics_timeout :
    ∃ h, Guarded timeoutsJoined h ∧ h.panicked = false ∧ h.store.history.deliveries.length = 2 := by
  obtain ⟨h, reached, answered⟩ := Machine.exec_reaches machine _ timeoutsJoined.meets (fun _ _ met => met)
    [.joinGroup (joinOf "a"), .syncGroup ⟨"g", "a", 1, some oneEach⟩, .joinGroup (joinOf "b"), .fire 3, .read 0, .run 0]
    (fun h => decide (h.store.history.deliveries.length = 2)) rfl (by decide +kernel)
  exact ⟨h, reached, never_panics h reached, of_decide_eq_true answered⟩

/-- The second member leaves, and the first one does not join again before the rebalance timeout. -/
theorem timeout_panics : ∃ h, machine.Run h ∧ h.panicked = true := by
  obtain ⟨h, reached, panics⟩ := Machine.exec_reaches machine (fun _ _ => True) (fun _ _ => true) (fun _ _ _ => trivial)
    [.joinGroup (joinOf "a"), .joinGroup (joinOf "b"), .leaveGroup "g" "b", .fire 3, .read 0, .run 0]
    (fun h => h.panicked) rfl (by decide +kernel)
  exact ⟨h, reached, panics⟩

/-! ### Late callbacks -/

/-- No member with the join result of the current round is removed, and a group whose barrier has closed stays as
it is. -/
def Undisturbed (h h' : GroupHost) : Prop :=
  ∀ p g, h.store.heap[p]? = some g → ∃ g', h'.store.heap[p]? = some g' ∧
    (∀ d ∈ h.store.history.deliveries, d.group = p → d.round = g.rebalances →
      ∀ id ∈ d.results.map Prod.fst, id ∈ g.memberIds → id ∈ g'.memberIds) ∧
    (g.state = .completingRebalance ∨ g.state = .stable → g' = g)

theorem close_heap (h : GroupHost) (p : Nat) (g : GroupMeta) :
    (h.maybeCloseJoinBarrier p g).1.store.heap = h.store.heap := by
  unfold GroupHost.maybeCloseJoinBarrier
  split
  · rfl
  · split
    · rfl
    · split
      · rfl
      · show (h.stopIfSet g.rebalanceTimer).store.heap = h.store.heap
        rw [GroupHost.stopIfSet_store]

theorem timeout_heap {h : GroupHost} {groupId : String} {p : Nat} {g : GroupMeta} (consistent : g.Consistent)
    (found : h.store.group groupId = some (p, g)) :
    ∃ g', (h.onRebalanceTimeout groupId g.generationId).store.heap = h.store.heap.set p g' ∧
      (g.state ≠ .preparingRebalance → g' = g.expired) := by
  unfold GroupHost.onRebalanceTimeout
  simp only [found, ne_eq, not_true_eq_false, ↓reduceIte]
  split
  · rename_i unset
    exact absurd unset (consistent.late_timed _)
  · generalize closing : GroupHost.maybeCloseJoinBarrier _ p g.expired = closes
    refine ⟨closes.2, ?_, ?_⟩
    · show closes.1.store.heap.set p closes.2 = _
      rw [← closing, close_heap, GroupHost.stopAll_store]
    · intro closed
      unfold GroupHost.maybeCloseJoinBarrier at closing
      rw [if_pos (show g.expired.state ≠ .preparingRebalance from closed)] at closing
      rw [← closing]

theorem timeout_stale (h : GroupHost) {groupId : String} {expectedGeneration : Int}
    (stale : ∀ p g, h.store.group groupId = some (p, g) → g.generationId ≠ expectedGeneration) :
    h.onRebalanceTimeout groupId expectedGeneration = h := by
  unfold GroupHost.onRebalanceTimeout
  split
  · rfl
  · rename_i p g found
    rw [if_pos (stale p g found)]

theorem expired_same {g : GroupMeta} : g.expired = g ↔ ∀ m ∈ g.members, g.joined m.memberId = true := by
  constructor
  · intro same
    exact List.filter_eq_self.mp (congrArg GroupMeta.members same)
  · intro all
    unfold GroupMeta.expired
    rw [List.filter_eq_self.mpr all]

theorem ran_timeout {h h' : GroupHost} {callback : Nat} {groupId : String} {expectedGeneration : Int}
    (waits : h.callbacks[callback]? = some (.timeout groupId expectedGeneration))
    (runs : step (.run callback) h = some h') :
    h' = (h.taken callback).onRebalanceTimeout groupId expectedGeneration := by
  cases step_moved runs with
  | timeout _ _ _ at_c =>
    cases waits.symm.trans at_c
    rfl
  | evict _ _ _ at_c => cases waits.symm.trans at_c
  | cleanup _ _ at_c => cases waits.symm.trans at_c

theorem waiting_undelivered {heap : List GroupMeta} {history : History} {p : Nat} {g : GroupMeta}
    (orderly : Orderly heap history) (consistent : g.Consistent) (at_p : heap[p]? = some g)
    (waiting : ¬ (g.state = .completingRebalance ∨ g.state = .stable)) {d : Delivery}
    (member : d ∈ history.deliveries) (own : d.group = p) (now : d.round = g.rebalances) : g.memberIds = [] := by
  have left_preparing := ((orderly.recorded p g at_p).delivered d member own).2 now
  rw [not_or] at waiting
  unfold GroupMeta.memberIds
  rw [consistent.vacant, List.map_nil]
  cases state : g.state with
  | empty => exact Or.inl rfl
  | dead => exact Or.inr rfl
  | preparingRebalance => exact absurd state left_preparing
  | completingRebalance => exact absurd state waiting.1
  | stable => exact absurd state waiting.2

/-- In every state of every run, a timeout callback that runs leaves everything in place that a closed barrier has
settled exactly if the group it finds in its generation is still waiting, or every member has a join parked. -/
theorem timeout_undisturbed (h h' : GroupHost) (reached : machine.Run h) (callback : Nat) (groupId : String)
    (expectedGeneration : Int) (waits : h.callbacks[callback]? = some (.timeout groupId expectedGeneration))
    (runs : step (.run callback) h = some h') :
    Undisturbed h h' ↔ ∀ p g, h.store.group groupId = some (p, g) → g.generationId = expectedGeneration →
      g.state = .completingRebalance ∨ g.state = .stable → ∀ m ∈ g.members, g.joined m.memberId = true := by
  have consistent := guarded_consistent (run_free reached)
  have result := ran_timeout waits runs
  have past : ∀ {g : GroupMeta}, g.state = .completingRebalance ∨ g.state = .stable →
    g.state ≠ .preparingRebalance := by
    rintro g (state | state) preparing <;> cases state.symm.trans preparing
  have removes : ∀ p g, h.store.group groupId = some (p, g) → g.generationId = expectedGeneration →
      ∃ g', h'.store.heap = h.store.heap.set p g' ∧ (g.state ≠ .preparingRebalance → g' = g.expired) := by
    rintro p g found rfl
    rw [result]
    exact timeout_heap (consistent g (List.mem_of_getElem? (GroupStore.group_some.mp found).2)) found
  constructor
  · intro undisturbed p g found current closed
    have at_p := (GroupStore.group_some.mp found).2
    obtain ⟨g', heap, late⟩ := removes p g found current
    obtain ⟨g'', at_p', _, same⟩ := undisturbed p g at_p
    rw [heap, List.getElem?_set_self (List.getElem?_eq_some_iff.mp at_p).1] at at_p'
    rw [← Option.some.inj at_p', late (past closed)] at same
    exact expired_same.mp (same closed)
  · intro joined q g at_q
    by_cases hit : h.store.group groupId = some (q, g) ∧ g.generationId = expectedGeneration
    · obtain ⟨found, current⟩ := hit
      obtain ⟨g', heap, late⟩ := removes q g found current
      refine ⟨g', ?_, ?_⟩
      · rw [heap, List.getElem?_set_self (List.getElem?_eq_some_iff.mp at_q).1]
      · by_cases closed : g.state = .completingRebalance ∨ g.state = .stable
        · have same : g' = g := by
            rw [late (past closed)]
            exact expired_same.mpr (joined q g found current closed)
          exact ⟨fun _ _ _ _ _ _ known => same ▸ known, fun _ => same⟩
        · refine ⟨?_, fun state => absurd state closed⟩
          intro d member own now id _ known
          rw [waiting_undelivered (guarded_orderly (run_free reached)) (consistent g (List.mem_of_getElem? at_q)) at_q
            closed member own now] at known
          cases known
    · -- Another group, or one that has gone on to another generation.
      refine ⟨g, ?_, fun _ _ _ _ _ _ known => known, fun _ => rfl⟩
      by_cases stale : ∀ p g, h.store.group groupId = some (p, g) → g.generationId ≠ expectedGeneration
      · rw [result, timeout_stale (h.taken callback) stale]
        exact at_q
      · simp only [not_forall, not_not] at stale
        obtain ⟨p, other, found, current⟩ := stale
        obtain ⟨g', heap, _⟩ := removes p other found current
        rw [heap, List.getElem?_set_ne, at_q]
        rintro rfl
        have at_p := (GroupStore.group_some.mp found).2
        obtain rfl := Option.some.inj (at_q.symm.trans at_p)
        exact hit ⟨found, current⟩

/-- A timeout that comes in time removes the first member, which has no result of the second generation. -/
theorem timeout_undisturbed_late : ∃ h h', machine.Run h ∧ h.callbacks[0]? = some (.timeout "g" 2) ∧
    step (.run 0) h = some h' ∧ Undisturbed h h' ∧ h'.store.heap.map (·.memberIds) = [["b"]] := by
  have schedule := Machine.exec_reaches machine (fun _ _ => True) (fun _ _ => true) (fun _ _ _ => trivial)
    [.joinGroup (joinOf "a"), .syncGroup ⟨"g", "a", 1, some oneEach⟩, .joinGroup (joinOf "b"), .fire 3, .read 0]
    (fun h => decide (h.callbacks[0]? = some (.timeout "g" 2)) &&
      ((h.store.group "g").all fun entry => decide (entry.2.state = .preparingRebalance)) &&
      (step (.run 0) h).any fun h' => decide (h'.store.heap.map (·.memberIds) = [["b"]]))
    rfl (by decide +kernel)
  simp only [Bool.and_eq_true, decide_eq_true_eq] at schedule
  obtain ⟨h, reached, ⟨waits, preparing⟩, moves⟩ := schedule
  obtain ⟨h', runs, members⟩ := (Option.any_eq_true _ _).mp moves
  refine ⟨h, h', reached, waits, runs, ?_, of_decide_eq_true members⟩
  apply (timeout_undisturbed h h' reached 0 "g" 2 waits runs).mpr
  intro p g found _ closed
  rw [found] at preparing
  have state : g.state = .preparingRebalance := of_decide_eq_true preparing
  rcases closed with other | other <;> cases state.symm.trans other

/-- The first member joins again after the rebalance timer has fired and before its callback has the lock. Both
members have their results when the callback removes them. -/
theorem timeout_disturbs : ∃ h h', machine.Run h ∧ h.callbacks[0]? = some (.timeout "g" 2) ∧
    step (.run 0) h = some h' ∧ ¬ Undisturbed h h' ∧ h'.store.heap.map (·.memberIds) = [[]] ∧
    ∃ g, h.store.heap[0]? = some g ∧ g.state = .completingRebalance ∧
      ∃ d ∈ h.store.history.deliveries, d.group = 0 ∧ d.round = g.rebalances ∧ d.results.map Prod.fst = ["b", "a"] := by
  have schedule := exec_group .free
    [.joinGroup (joinOf "a"), .syncGroup ⟨"g", "a", 1, some oneEach⟩, .joinGroup (joinOf "b"), .fire 3, .read 0,
      .joinGroup (joinOf "a")]
    (fun h g => decide (h.callbacks[0]? = some (.timeout "g" 2) ∧ g.state = .completingRebalance ∧ g.memberIds ≠ []) &&
      (h.store.history.deliveries.any fun d =>
        decide (d.group = 0 ∧ d.round = g.rebalances ∧ d.results.map Prod.fst = ["b", "a"])) &&
      (step (.run 0) h).any fun h' => decide (h'.store.heap.map (·.memberIds) = [[]]))
    (by decide +kernel)
  simp only [Bool.and_eq_true, decide_eq_true_eq] at schedule
  obtain ⟨h, g, reached, at_0, ⟨⟨waits, completing, some_member⟩, delivered⟩, moves⟩ := schedule
  obtain ⟨h', runs, removed⟩ := (Option.any_eq_true _ _).mp moves
  obtain ⟨d, member, current⟩ := List.any_eq_true.mp delivered
  refine ⟨h, h', guarded_run reached, waits, runs, ?_, of_decide_eq_true removed, g, at_0, completing, d, member,
    of_decide_eq_true current⟩
  intro undisturbed
  obtain ⟨g', at_0', _, same⟩ := undisturbed 0 g at_0
  have none : g'.memberIds = [] := by
    have first := congrArg (·[0]?) (of_decide_eq_true removed)
    simpa only [List.getElem?_map, at_0', Option.map_some, List.getElem?_cons_zero, Option.some.injEq] using first
  rw [same (Or.inl completing)] at none
  exact some_member none

end KafGo.Group
