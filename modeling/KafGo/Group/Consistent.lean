import KafGo.Group.Changes

/-!
# Consistent groups

What holds of every group in every run, and what one more guard gives: a group that reaches `Stable` has no parked
requests if no join came in while it was completing its rebalance.
-/

namespace KafGo.Group
open Lib

structure GroupMeta.Consistent (g : GroupMeta) : Prop where
  distinct : g.memberIds.Nodup
  timed : ∀ m ∈ g.members, m.sessionTimer.isSome
  joined : g.state = .preparingRebalance → ∀ pj ∈ g.pendingJoins, pj.memberId ∈ g.memberIds
  unsynced : g.state = .preparingRebalance ∨ g.state = .stable → g.pendingSyncs = []
  requested : ∀ ps ∈ g.pendingSyncs, ps.requested = g.generationId
  unassigned : g.state = .preparingRebalance ∨ g.state = .completingRebalance → g.leaderAssignment = none
  vacant : g.state = .empty ∨ g.state = .dead → g.members = []
  generation : g.rebalances < 2 ^ 31 → g.generationId = g.rebalances

theorem newGroup_consistent (groupId protocolName : String) : (newGroup groupId protocolName).Consistent where
  distinct := List.nodup_nil
  timed m member := by cases member
  joined state := by cases state
  unsynced _ := rfl
  requested ps parked := by cases parked
  unassigned _ := rfl
  vacant _ := rfl
  generation _ := rfl

theorem prepared_consistent {g : GroupMeta} (timer : Nat) (distinct : g.memberIds.Nodup)
    (timed : ∀ m ∈ g.members, m.sessionTimer.isSome)
    (generation : g.rebalances < 2 ^ 31 → g.generationId = g.rebalances) :
    (g.prepared timer).Consistent where
  distinct := distinct
  timed := timed
  joined _ pj member := by cases member
  unsynced _ := rfl
  requested ps parked := by cases parked
  unassigned _ := rfl
  vacant state := by rcases state with state | state <;> cases state
  generation few := by
    have fewer : g.rebalances + 1 < 2 ^ 31 := few
    have before := generation (by omega)
    show wrapSigned 32 (g.generationId + 1) = (g.rebalances + 1 : Nat)
    rw [before]
    exact wrapSigned_natCast (by decide) fewer

theorem change_consistent {guard : Guard} {g g' : GroupMeta} (change : GroupChange guard g g')
    (consistent : g.Consistent) : g'.Consistent := by
  obtain ⟨distinct, timed, joined, unsynced, requested, unassigned, vacant, generation⟩ := consistent
  have kept : ∀ keep : GroupMemberMetadata → Bool, ∀ m ∈ g.members.filter keep, m.sessionTimer.isSome :=
    fun keep m member => timed m (List.mem_of_mem_filter member)
  cases change with
  | enrolled member ready open_g =>
    refine ⟨nodup_insertKey distinct member, forall_insertKey timed ready, ?_, unsynced, requested, unassigned,
      ?_, generation⟩
    · intro state pj parked
      exact (mem_keys_insertKey member).mpr (Or.inl (joined state pj parked))
    · intro state
      have nobody := vacant state
      rcases open_g with started | inside
      · exact absurd started (by rcases state with state | state <;> simp [GroupMeta.startsRebalance,
          show g.state = _ from state])
      · rw [GroupMeta.memberIds, nobody] at inside
        cases inside
  | restarted member timer ready permitted =>
    exact prepared_consistent timer (nodup_insertKey distinct member) (forall_insertKey timed ready) generation
  | parked memberId resultCh started known permitted =>
    refine ⟨distinct, timed, ?_, unsynced, requested, unassigned, vacant, generation⟩
    intro state pj parked
    rcases List.mem_append.mp parked with old | new
    · exact joined state pj old
    · rw [List.mem_singleton.mp new]
      exact known
  | closed first rest preparing joins all =>
    refine ⟨distinct, timed, nofun, ?_, requested, ?_, ?_, generation⟩
    · rintro (state | state) <;> cases state
    · intro _
      exact unassigned (Or.inl preparing)
    · rintro (state | state) <;> cases state
  | died memberId last =>
    refine ⟨nodup_filter_keys distinct _, kept _, nofun, ?_, requested, ?_, fun _ => last, generation⟩
    · rintro (state | state) <;> cases state
    · rintro (state | state) <;> cases state
  | dropped memberId timer permitted =>
    refine prepared_consistent timer ?_ (kept _) generation
    exact nodup_filter_keys distinct _
  | expired permitted =>
    refine ⟨nodup_filter_keys distinct _, kept _, ?_, unsynced, requested, unassigned, ?_, generation⟩
    · intro state pj parked
      obtain ⟨m, member, same⟩ := List.mem_map.mp (joined state pj parked)
      apply List.mem_map.mpr
      refine ⟨m, List.mem_filter.mpr ⟨member, ?_⟩, same⟩
      exact List.any_eq_true.mpr ⟨pj, parked, decide_eq_true same.symm⟩
    · intro state
      show g.members.filter _ = []
      rw [vacant state, List.filter_nil]
  | submitted a completing permitted =>
    refine ⟨distinct, timed, nofun, fun _ => rfl, nofun, ?_, ?_, generation⟩
    · rintro (state | state) <;> cases state
    · rintro (state | state) <;> cases state
  | parkedSync memberId resultSync completing unknown =>
    refine ⟨distinct, timed, joined, ?_, ?_, unassigned, vacant, generation⟩
    · rintro (state | state) <;> cases completing.symm.trans state
    · exact List.forall_mem_append.mpr ⟨requested, List.forall_mem_singleton.mpr rfl⟩

theorem guarded_consistent {guard : Guard} {h : GroupHost} (reached : Guarded guard h) :
    ∀ g ∈ h.store.heap, g.Consistent :=
  guarded_each newGroup_consistent (fun _ _ => change_consistent) reached

/-- The leader's assignment comes when no join is parked. -/
def submitsAlone : Guard := { Guard.free with submit := fun joins => joins.isEmpty }

theorem change_idle {g g' : GroupMeta} (change : GroupChange submitsAlone g g')
    (idle : g.state = .stable → g.pendingJoins = []) : g'.state = .stable → g'.pendingJoins = [] := by
  cases change with
  | enrolled | expired | parkedSync => exact idle
  | restarted | closed | dropped => exact fun _ => rfl
  | parked memberId resultCh started known permitted =>
    intro stable
    have state : g.state = .stable := stable
    simp only [GroupMeta.startsRebalance, state, decide_true, Bool.true_or] at started
    cases started
  | died => exact nofun
  | submitted a completing permitted => exact fun _ => List.isEmpty_iff.mp permitted

/-- In every run in which the leader's assignment always comes while no join is parked, no request waits in a
stable group. -/
theorem stable_idle (h : GroupHost) (reached : Guarded submitsAlone h) :
    ∀ g ∈ h.store.heap, g.state = .stable → g.pendingJoins = [] ∧ g.pendingSyncs = [] := by
  intro g member stable
  constructor
  · exact guarded_each (fun _ _ _ => rfl) (fun _ _ => change_idle) reached g member stable
  · exact (guarded_consistent reached g member).unsynced (Or.inr stable)

def joinOf (memberId : String) : JoinRequest := ⟨"g", memberId, "", "range", [], 10 * second, 3 * second⟩

def oneEach : Assignments := fun memberId => if memberId = "a" then some [1] else some [2]

theorem stable_idle_one : ∃ h, Guarded submitsAlone h ∧ ∃ g ∈ h.store.heap, g.state = .stable ∧
    g.pendingJoins = [] ∧ g.pendingSyncs = [] := by
  obtain ⟨h, g, reached, at_0, stable⟩ := exec_group submitsAlone
    [.joinGroup (joinOf "a"), .syncGroup ⟨"g", "a", 1, some oneEach⟩] (fun _ g => decide (g.state = .stable))
    (by decide +kernel)
  have member := List.mem_of_getElem? at_0
  have state := of_decide_eq_true stable
  exact ⟨h, reached, g, member, state, stable_idle h reached g member state⟩

/-- A second consumer joins before the leader of the first generation has synced. -/
theorem stable_parked : ∃ h, machine.Run h ∧ ∃ g ∈ h.store.heap, g.state = .stable ∧ g.pendingJoins ≠ [] := by
  obtain ⟨h, g, reached, at_0, parked⟩ := exec_group .free
    [.joinGroup (joinOf "a"), .joinGroup (joinOf "b"), .syncGroup ⟨"g", "a", 1, some oneEach⟩]
    (fun _ g => decide (g.state = .stable) && !g.pendingJoins.isEmpty) (by decide +kernel)
  obtain ⟨stable, waiting⟩ := Bool.and_eq_true_iff.mp parked
  refine ⟨h, guarded_run reached, g, List.mem_of_getElem? at_0, of_decide_eq_true stable, ?_⟩
  intro none
  rw [none] at waiting
  cases waiting

end KafGo.Group
