import KafGo.Group.Timeouts

/-!
# Heartbeats

A member sends heartbeats with the generation of its last join result. `Heartbeat` compares that generation with the
one of the group before it looks at the state, and a rebalance counts the generation up when it starts: from then on
a member that has not joined again is told that its generation is illegal.
-/

namespace KafGo.Group
open Lib

/-! ### Session timers -/

def GroupHost.alarms (h : GroupHost) : List Callback := h.timers.map (·.callback)

/-- Every member has a session timer, which evicts that member from this group. -/
def GroupMeta.Watched (alarms : List Callback) (g : GroupMeta) : Prop :=
  ∀ m ∈ g.members, ∃ k, m.sessionTimer = some k ∧ alarms[k]? = some (.evict g.groupId m.memberId)

/-- All groups are watched, also the one that is written next. -/
structure Ready (h : GroupHost) (g : GroupMeta) : Prop where
  rest : ∀ g' ∈ h.store.heap, g'.Watched h.alarms
  here : g.Watched h.alarms

namespace GroupMeta.Watched

variable {alarms alarms' : List Callback} {g g' : GroupMeta}

theorem mono (watched : g.Watched alarms) (longer : alarms <+: alarms') : g.Watched alarms' := by
  intro m member
  obtain ⟨k, timer, alarm⟩ := watched m member
  obtain ⟨bound, here⟩ := List.getElem?_eq_some_iff.mp alarm
  exact ⟨k, timer, here ▸ List.prefix_iff_getElem?.mp longer k bound⟩

theorem shrink (watched : g.Watched alarms) (id : g'.groupId = g.groupId) (kept : ∀ m ∈ g'.members, m ∈ g.members) :
    g'.Watched alarms := by
  intro m member
  rw [id]
  exact watched m (kept m member)

end GroupMeta.Watched

namespace GroupHost

variable {h h' : GroupHost} {p : Nat} {g g' : GroupMeta}

theorem map_callback_modify (timers : List Timer) (timer : Nat) (f : Timer → Timer)
    (keeps : ∀ t, (f t).callback = t.callback) :
    (timers.modify timer f).map (·.callback) = timers.map (·.callback) := by
  apply List.ext_getElem?
  intro k
  simp only [List.getElem?_map, List.getElem?_modify]
  cases timers[k]? with
  | none => rfl
  | some t => by_cases same : timer = k <;> simp [same, keeps]

@[simp] theorem stop_alarms (h : GroupHost) (timer : Nat) : (h.stop timer).alarms = h.alarms :=
  map_callback_modify _ _ _ fun _ => rfl

@[simp] theorem reset_alarms (h : GroupHost) (timer : Nat) (duration : Int) :
    (h.reset timer duration).alarms = h.alarms := map_callback_modify _ _ _ fun _ => rfl

@[simp] theorem afterFunc_alarms (h : GroupHost) (duration : Int) (callback : Callback) :
    (h.afterFunc duration callback).alarms = h.alarms ++ [callback] := by
  unfold afterFunc alarms
  rw [List.map_append]
  rfl

@[simp] theorem stopIfSet_alarms (h : GroupHost) (timer : Option Nat) : (h.stopIfSet timer).alarms = h.alarms := by
  cases timer with
  | none => rfl
  | some k => exact h.stop_alarms k

theorem stopAll_alarms (members : List GroupMemberMetadata) (h : GroupHost) :
    (members.foldl (fun h m => h.stopIfSet m.sessionTimer) h).alarms = h.alarms := by
  induction members generalizing h with
  | nil => rfl
  | cons m members ih => exact (ih _).trans (h.stopIfSet_alarms m.sessionTimer)

theorem close_alarms (h : GroupHost) (p : Nat) (g : GroupMeta) : (h.maybeCloseJoinBarrier p g).1.alarms = h.alarms := by
  unfold maybeCloseJoinBarrier
  split
  · rfl
  · split
    · rfl
    · split
      · rfl
      · exact h.stopIfSet_alarms g.rebalanceTimer

theorem close_members (h : GroupHost) (p : Nat) (g : GroupMeta) :
    (h.maybeCloseJoinBarrier p g).2.groupId = g.groupId ∧ (h.maybeCloseJoinBarrier p g).2.members = g.members := by
  unfold maybeCloseJoinBarrier
  split
  · exact ⟨rfl, rfl⟩
  · split
    · exact ⟨rfl, rfl⟩
    · split <;> exact ⟨rfl, rfl⟩

theorem resetSessionTimer_alarms (h : GroupHost) (groupId : String) (m : GroupMemberMetadata) :
    h.alarms <+: (h.resetSessionTimer groupId m).1.alarms := by
  unfold resetSessionTimer
  split
  · rw [afterFunc_alarms]
    exact List.prefix_append _ _
  · simp only [reset_alarms, List.prefix_refl]

theorem resetSessionTimer_watched (h : GroupHost) (groupId : String) (m : GroupMemberMetadata)
    (timer : ∀ k, m.sessionTimer = some k → h.alarms[k]? = some (.evict groupId m.memberId)) :
    ∃ k, (h.resetSessionTimer groupId m).2.sessionTimer = some k ∧
      (h.resetSessionTimer groupId m).1.alarms[k]? = some (.evict groupId m.memberId) := by
  unfold resetSessionTimer
  split
  · refine ⟨h.timers.length, rfl, ?_⟩
    rw [afterFunc_alarms, List.getElem?_append_right (by simp [alarms])]
    simp [alarms]
  · rename_i k set
    refine ⟨k, set, ?_⟩
    rw [reset_alarms]
    exact timer k set

end GroupHost

namespace Ready

variable {h h' : GroupHost} {p : Nat} {g g' : GroupMeta}

theorem write (ready : Ready h g) (p : Nat) : ∀ g' ∈ (h.write p g).store.heap, g'.Watched (h.write p g).alarms := by
  intro g' member
  rcases List.mem_or_eq_of_mem_set member with old | rfl
  · exact ready.rest g' old
  · exact ready.here

theorem grow (ready : Ready h g) (heap : h'.store.heap = h.store.heap) (longer : h.alarms <+: h'.alarms) :
    Ready h' g where
  rest g' member := (ready.rest g' (heap ▸ member)).mono longer
  here := ready.here.mono longer

theorem shrink (ready : Ready h g) (id : g'.groupId = g.groupId) (kept : ∀ m ∈ g'.members, m ∈ g.members) :
    Ready h g' :=
  ⟨ready.rest, ready.here.shrink id kept⟩

theorem transition (ready : Ready h g) (p : Nat) :
    Ready (h.transitionToPrepareRebalance p g).1 (h.transitionToPrepareRebalance p g).2 := by
  refine (ready.grow ?_ ?_).shrink rfl fun m member => member
  · rw [GroupHost.transition_store]
  · show h.alarms <+: ((h.stopIfSet g.rebalanceTimer).afterFunc _ _).alarms
    rw [GroupHost.afterFunc_alarms, GroupHost.stopIfSet_alarms]
    exact List.prefix_append _ _

theorem close (ready : Ready h g) (p : Nat) :
    Ready (h.maybeCloseJoinBarrier p g).1 (h.maybeCloseJoinBarrier p g).2 := by
  obtain ⟨id, members⟩ := h.close_members p g
  refine (ready.grow (close_heap h p g) ?_).shrink id fun m member => members ▸ member
  simp only [GroupHost.close_alarms, List.prefix_refl]

theorem reset (ready : Ready h g) {m : GroupMemberMetadata}
    (timer : ∀ k, m.sessionTimer = some k → h.alarms[k]? = some (.evict g.groupId m.memberId)) :
    Ready (h.resetSessionTimer g.groupId m).1 (g.putMember (h.resetSessionTimer g.groupId m).2) := by
  obtain ⟨store, _, same⟩ := h.resetSessionTimer_spec g.groupId m
  have grown := ready.grow (congrArg GroupStore.heap store) (h.resetSessionTimer_alarms g.groupId m)
  refine ⟨grown.rest, ?_⟩
  intro b member
  rcases mem_insertKey member with rfl | ⟨old, _⟩
  · rw [same]
    exact h.resetSessionTimer_watched g.groupId m timer
  · exact grown.here b old

theorem drop (ready : Ready h g) (p : Nat) (memberId : String) :
    ∀ g' ∈ (h.dropMember p g memberId).store.heap, g'.Watched (h.dropMember p g memberId).alarms := by
  have deleted : Ready h (g.deleteMember memberId) := ready.shrink rfl fun m member => List.mem_of_mem_filter member
  unfold GroupHost.dropMember
  dsimp only
  split
  · have scheduled : Ready (h.scheduleGroupCleanup (g.deleteMember memberId).groupId) (g.deleteMember memberId) := by
      refine deleted.grow rfl ?_
      unfold GroupHost.scheduleGroupCleanup
      rw [GroupHost.afterFunc_alarms]
      exact List.prefix_append _ _
    have dead : Ready (h.scheduleGroupCleanup (g.deleteMember memberId).groupId)
        { g.deleteMember memberId with state := .dead } := scheduled.shrink rfl fun m member => member
    exact dead.write p
  · exact (deleted.transition p).write p

end Ready

def AllWatched (h : GroupHost) : Prop := ∀ g ∈ h.store.heap, g.Watched h.alarms

variable {h : GroupHost} {groupId : String} {p : Nat} {g : GroupMeta} {m : GroupMemberMetadata} {s : GroupStore}
  {guard : Guard}

theorem AllWatched.ready (all : AllWatched h) (found : h.store.group groupId = some (p, g)) : Ready h g :=
  ⟨all, all g (List.mem_of_getElem? (GroupStore.group_some.mp found).2)⟩

theorem member_timer {alarms : List Callback} (watched : g.Watched alarms) {memberId : String}
    (known : g.member memberId = some m) :
    ∀ k, m.sessionTimer = some k → alarms[k]? = some (.evict g.groupId m.memberId) := by
  intro k set
  obtain ⟨k', timer, alarm⟩ := watched m (lookupKey_some known).1
  obtain rfl := Option.some.inj (set.symm.trans timer)
  exact alarm

theorem heartbeat_watched (all : AllWatched h) (groupId memberId : String) (generationId : Int) :
    AllWatched (h.heartbeat groupId memberId generationId).1 := by
  unfold GroupHost.heartbeat
  split
  · exact all
  · rename_i p g found
    split
    · exact all
    · rename_i m known
      split
      · exact all
      · have ready := all.ready found
        exact (ready.reset (member_timer ready.here known)).write p

theorem joinGroup_watched (all : AllWatched h) (q : JoinRequest) : AllWatched (h.joinGroup q).1 := by
  unfold GroupHost.joinGroup
  have made : Ready (h.findOrCreate q.groupId q.protocolName).1 (h.findOrCreate q.groupId q.protocolName).2.2 := by
    unfold GroupHost.findOrCreate
    split
    · rename_i p g found
      exact all.ready found
    · have new : (newGroup q.groupId q.protocolName).Watched h.alarms := fun m member => absurd member List.not_mem_nil
      refine ⟨?_, new⟩
      intro g member
      rcases List.mem_append.mp member with old | fresh
      · exact all g old
      · rw [List.mem_singleton.mp fresh]
        exact new
  generalize h.findOrCreate q.groupId q.protocolName = entry at made ⊢
  obtain ⟨h₁, p, g⟩ := entry
  dsimp only at made ⊢
  split
  · exact made.rest
  · have enrolled : Ready (h₁.enrol g q).1 (h₁.enrol g q).2 := by
      apply made.reset
      unfold GroupMeta.joining
      cases known : g.member q.memberId with
      | none => rintro k ⟨⟩
      | some m =>
        intro k set
        exact member_timer made.here known k set
    generalize h₁.enrol g q = entry at enrolled ⊢
    obtain ⟨h₂, g₂⟩ := entry
    have parks : ∀ (h₃ : GroupHost) (g₃ : GroupMeta), Ready h₃ g₃ →
        AllWatched ((h₃.park p g₃ q.memberId).1.write p (h₃.park p g₃ q.memberId).2) := by
      intro h₃ g₃ ready
      have opened : Ready { h₃ with store := h₃.store.openJoin p } g₃ := ready.grow rfl (List.prefix_refl _)
      have parked : Ready { h₃ with store := h₃.store.openJoin p }
        (g₃.parkJoin q.memberId h₃.store.joinChs.length) := opened.shrink rfl fun m member => member
      exact (parked.close p).write p
    split
    · exact parks _ _ (enrolled.transition p)
    · exact parks _ _ enrolled

theorem leaveGroup_watched (all : AllWatched h) (groupId memberId : String) :
    AllWatched (h.leaveGroup groupId memberId).1 := by
  unfold GroupHost.leaveGroup
  split
  · exact all
  · rename_i p g found
    split
    · exact all
    · split
      · exact all
      · rename_i k _
        have stopped : Ready (h.stop k) g := by
          refine (all.ready found).grow rfl ?_
          simp only [GroupHost.stop_alarms, List.prefix_refl]
        exact stopped.drop p memberId

theorem evictMember_watched (all : AllWatched h) (groupId memberId : String) :
    AllWatched (h.evictMember groupId memberId) := by
  unfold GroupHost.evictMember
  split
  · exact all
  · rename_i p g found
    split
    · exact all
    · split
      · exact all
      · exact (all.ready found).drop p memberId

theorem onRebalanceTimeout_watched (all : AllWatched h) (groupId : String) (expectedGeneration : Int) :
    AllWatched (h.onRebalanceTimeout groupId expectedGeneration) := by
  unfold GroupHost.onRebalanceTimeout
  split
  · exact all
  · rename_i p g found
    split
    · exact all
    · dsimp only
      split
      · exact all
      · have kept : Ready h g.expired := (all.ready found).shrink rfl fun m member => List.mem_of_mem_filter member
        refine ((kept.grow ?_ ?_).close p).write p
        · rw [GroupHost.stopAll_store]
        · simp only [GroupHost.stopAll_alarms, List.prefix_refl]

theorem syncGroup_watched (all : AllWatched h) (q : SyncRequest) : AllWatched (h.syncGroup q).1 := by
  unfold GroupHost.syncGroup
  split
  · exact all
  · rename_i p g found
    have ready := all.ready found
    split
    · exact all
    · split
      · exact all
      · dsimp only
        split
        · rename_i a _
          have assigned : Ready h (g.assigned a) := ready.shrink rfl fun m member => member
          exact assigned.write p
        · split
          · exact all
          · have parked : Ready h (g.parkSync q.memberId q.generationId h.store.syncChs.length) :=
              ready.shrink rfl fun m member => member
            exact parked.write p

theorem step_watched {h' : GroupHost} {a : GroupAction} (all : AllWatched h) (moves : step a h = some h') :
    AllWatched h' := by
  cases step_moved moves with
  | heartbeat groupId memberId generationId => exact heartbeat_watched all groupId memberId generationId
  | joinGroup q => exact joinGroup_watched all q
  | leaveGroup groupId memberId => exact leaveGroup_watched all groupId memberId
  | syncGroup q => exact syncGroup_watched all q
  | fire timer t =>
    intro g member
    show g.Watched (h.stop timer).alarms
    rw [GroupHost.stop_alarms]
    exact all g member
  | read callback g => exact all
  | evict callback groupId memberId at_c => exact evictMember_watched (h := h.taken callback) all groupId memberId
  | timeout callback groupId expectedGeneration at_c =>
    exact onRebalanceTimeout_watched (h := h.taken callback) all groupId expectedGeneration
  | cleanup callback groupId at_c =>
    unfold GroupHost.cleanup
    split
    · exact all
    · split <;> exact all

theorem run_watched (reached : machine.Run h) : AllWatched h := by
  refine Machine.reached_invariant AllWatched ?_ (fun _ _ _ all _ moves => step_watched all moves) reached
  rintro h rfl g member
  cases member

def GroupStore.Named (s : GroupStore) : Prop :=
  ∀ groupId p, s.groups groupId = some p → ∃ g, s.heap[p]? = some g ∧ g.groupId = groupId

theorem named_write (named : s.Named) {g' : GroupMeta} (at_p : s.heap[p]? = some g) (id : g'.groupId = g.groupId) :
    ∀ groupId q, s.groups groupId = some q → ∃ b, (s.heap.set p g')[q]? = some b ∧ b.groupId = groupId := by
  intro groupId q registered
  obtain ⟨b, at_q, same⟩ := named groupId q registered
  by_cases here : p = q
  · subst here
    obtain rfl := Option.some.inj (at_p.symm.trans at_q)
    exact ⟨g', List.getElem?_set_self (List.getElem?_eq_some_iff.mp at_p).1, id.trans same⟩
  · exact ⟨b, (List.getElem?_set_ne here).trans at_q, same⟩

theorem change_named {s' : GroupStore} (change : Change guard s s') (named : s.Named) : s'.Named := by
  cases change with
  | created groupId protocolName missing =>
    intro id p registered
    by_cases same : id = groupId
    · subst same
      have fresh : s.heap.length = p := by
        have registered : Function.update s.groups id (some s.heap.length) id = some p := registered
        rw [Function.update_self] at registered
        exact Option.some.inj registered
      subst fresh
      refine ⟨newGroup id protocolName, ?_, rfl⟩
      show (s.heap ++ [newGroup id protocolName])[s.heap.length]? = _
      rw [List.getElem?_append_right (Nat.le_refl _), Nat.sub_self]
      rfl
    · have registered : Function.update s.groups groupId (some s.heap.length) id = some p := registered
      rw [Function.update_of_ne same] at registered
      obtain ⟨g, at_p, name⟩ := named id p registered
      refine ⟨g, ?_, name⟩
      show (s.heap ++ [newGroup groupId protocolName])[p]? = _
      rw [List.getElem?_append_left (List.getElem?_eq_some_iff.mp at_p).1, at_p]
  | replied => exact named
  | deleted groupId p g found dead permitted =>
    intro id q registered
    by_cases same : id = groupId
    · have registered : Function.update s.groups groupId none id = some q := registered
      rw [same, Function.update_self] at registered
      cases registered
    · have registered : Function.update s.groups groupId none id = some q := registered
      rw [Function.update_of_ne same] at registered
      exact named id q registered
  | _ =>
    apply named_write named
    · assumption
    · rfl

theorem run_named (reached : machine.Run h) (found : h.store.group groupId = some (p, g)) : g.groupId = groupId := by
  have named : h.store.Named := by
    apply guarded_invariant GroupStore.Named _ (fun _ _ => change_named) (run_free reached)
    rintro groupId p ⟨⟩
  obtain ⟨registered, at_p⟩ := GroupStore.group_some.mp found
  obtain ⟨g', at_p', same⟩ := named groupId p registered
  obtain rfl := Option.some.inj (at_p.symm.trans at_p')
  exact same

def GroupMeta.Numbered (g : GroupMeta) : Prop := g.generationId = wrapSigned 32 g.rebalances

theorem change_numbered {g' : GroupMeta} (change : GroupChange guard g g') (numbered : g.Numbered) :
    g'.Numbered := by
  have next : wrapSigned 32 (g.generationId + 1) = wrapSigned 32 (g.rebalances + 1 : Nat) := by
    rw [show g.generationId = _ from numbered, wrapSigned_add]
    rfl
  cases change with
  | restarted => exact next
  | dropped => exact next
  | _ => exact numbered

theorem change_delivered {s' : GroupStore} (change : Change guard s s') (numbered : ∀ g ∈ s.heap, g.Numbered)
    (delivered : ∀ d ∈ s.history.deliveries, d.generationId = wrapSigned 32 d.round) :
    ∀ d ∈ s'.history.deliveries, d.generationId = wrapSigned 32 d.round := by
  cases change with
  | closed p g first rest at_p preparing joins all =>
    exact History.forall_deliver delivered (numbered g (List.mem_of_getElem? at_p))
  | _ => exact delivered

theorem newGroup_numbered (groupId protocolName : String) : (newGroup groupId protocolName).Numbered := by
  unfold GroupMeta.Numbered
  rfl

/-- A delivery and its group have the same generation if the rebalances between them are a multiple of 2^32. -/
theorem generation_eq_iff (reached : machine.Run h) {d : Delivery} (delivered : d ∈ h.store.history.deliveries)
    (at_p : h.store.heap[d.group]? = some g) :
    d.generationId = g.generationId ↔ 2 ^ 32 ∣ g.rebalances - d.round := by
  have free := run_free reached
  have current : g.generationId = _ := guarded_each newGroup_numbered (fun _ _ => change_numbered) free g
    (List.mem_of_getElem? at_p)
  have carried : d.generationId = _ := guarded_over newGroup_numbered (fun _ _ => change_numbered)
    (fun s => ∀ d ∈ s.history.deliveries, d.generationId = wrapSigned 32 d.round)
    (fun d none => absurd none List.not_mem_nil) (fun _ _ => change_delivered) free d delivered
  have upto := ((guarded_orderly free).recorded d.group g at_p).delivered d delivered rfl |>.1
  rw [current, carried, eq_comm, wrapSigned_eq_iff, ← Int.natCast_sub upto, Int.natCast_dvd_natCast]

/-! ### The answer to a heartbeat -/

/-- The last delivery with a join result for the member, in a group of this name. -/
def GroupStore.latestJoin (s : GroupStore) (groupId memberId : String) : Option Delivery :=
  s.history.deliveries.reverse.find? fun d =>
    (s.heap[d.group]?).any (fun g => decide (g.groupId = groupId)) && decide (memberId ∈ d.results.map Prod.fst)

/-- The session timer of the member runs again, from the start. -/
def SessionRestarted (h : GroupHost) (groupId memberId : String) : Prop :=
  ∃ p g m k, h.store.group groupId = some (p, g) ∧ g.member memberId = some m ∧ m.sessionTimer = some k ∧
    h.timers[k]? = some ⟨.evict groupId memberId, m.sessionTimeout, true⟩

/-- The answers that a member of the group is to get for the generation of its last join result. -/
structure Answers (h : GroupHost) (groupId memberId : String) (g : GroupMeta) (generationId : Int) : Prop where
  stable : g.state = .stable → g.generationId = generationId →
    (h.heartbeat groupId memberId generationId).2 = heartbeatOK
  rebalancing : g.state = .preparingRebalance ∨ g.state = .completingRebalance →
    (h.heartbeat groupId memberId generationId).2 = heartbeatRebalanceInProcess ∧
      SessionRestarted (h.heartbeat groupId memberId generationId).1 groupId memberId
  legal : (h.heartbeat groupId memberId generationId).2 ≠ heartbeatIllegalGeneration

theorem timer_of_alarm {k : Nat} {c : Callback} (alarm : h.alarms[k]? = some c) :
    ∃ t, h.timers[k]? = some t ∧ t.callback = c := by
  unfold GroupHost.alarms at alarm
  rw [List.getElem?_map, Option.map_eq_some_iff] at alarm
  exact alarm

theorem reset_running (timer : ∀ k, m.sessionTimer = some k → h.alarms[k]? = some (.evict groupId m.memberId)) :
    ∃ k, (h.resetSessionTimer groupId m).2.sessionTimer = some k ∧
      (h.resetSessionTimer groupId m).1.timers[k]? = some ⟨.evict groupId m.memberId, m.sessionTimeout, true⟩ := by
  unfold GroupHost.resetSessionTimer
  split
  · refine ⟨h.timers.length, rfl, ?_⟩
    show (h.timers ++ [_])[h.timers.length]? = _
    rw [List.getElem?_append_right (Nat.le_refl _), Nat.sub_self]
    rfl
  · rename_i k set
    obtain ⟨t, at_k, callback⟩ := timer_of_alarm (timer k set)
    refine ⟨k, set, ?_⟩
    show (h.timers.modify k _)[k]? = _
    rw [List.getElem?_modify_eq, at_k, ← callback]
    rfl

theorem heartbeat_restarts (reached : machine.Run h) {memberId : String} (found : h.store.group groupId = some (p, g))
    (known : g.member memberId = some m) :
    SessionRestarted (h.heartbeat groupId memberId g.generationId).1 groupId memberId := by
  have watched := (run_watched reached).ready found
  have name := run_named reached found
  obtain ⟨registered, at_p⟩ := GroupStore.group_some.mp found
  have own : m.memberId = memberId := (lookupKey_some known).2
  obtain ⟨k, set, running⟩ := reset_running (member_timer watched.here known)
  obtain ⟨store, _, same⟩ := h.resetSessionTimer_spec g.groupId m
  have timeout : (h.resetSessionTimer g.groupId m).2.sessionTimeout = m.sessionTimeout := by
    unfold GroupHost.resetSessionTimer
    split <;> rfl
  have after : (h.heartbeat groupId memberId g.generationId).1 =
      (h.resetSessionTimer g.groupId m).1.write p (g.putMember (h.resetSessionTimer g.groupId m).2) := by
    unfold GroupHost.heartbeat
    simp only [found, known, ne_eq, not_true_eq_false, if_false]
  rw [after]
  refine ⟨p, g.putMember (h.resetSessionTimer g.groupId m).2, (h.resetSessionTimer g.groupId m).2, k, ?_, ?_, set, ?_⟩
  · apply GroupStore.group_some.mpr
    show (h.resetSessionTimer g.groupId m).1.store.groups groupId = some p ∧
      ((h.resetSessionTimer g.groupId m).1.store.heap.set p _)[p]? = _
    rw [store]
    exact ⟨registered, List.getElem?_set_self (List.getElem?_eq_some_iff.mp at_p).1⟩
  · rw [← own, ← same]
    exact lookupKey_insertKey_same _
  · rw [timeout, ← own, ← name]
    exact running

/-- In every state of every run, a member is answered as it should be exactly if the group is still in the generation
of the member's last join result: if no rebalance was started since. -/
theorem heartbeat_answers_iff (h : GroupHost) (reached : machine.Run h) (groupId memberId : String) (p : Nat)
    (g : GroupMeta) (m : GroupMemberMetadata) (d : Delivery) (found : h.store.group groupId = some (p, g))
    (known : g.member memberId = some m) (latest : h.store.latestJoin groupId memberId = some d) :
    (Answers h groupId memberId g d.generationId ↔ d.generationId = g.generationId) ∧
    (d.group = p → (d.generationId = g.generationId ↔ 2 ^ 32 ∣ g.rebalances - d.round)) := by
  constructor
  · constructor
    · intro answers
      by_contra stale
      apply answers.legal
      unfold GroupHost.heartbeat
      simp only [found, known, if_pos (show d.generationId ≠ g.generationId from stale)]
    · intro current
      have code : (h.heartbeat groupId memberId d.generationId).2 =
          if g.state = .preparingRebalance ∨ g.state = .completingRebalance then heartbeatRebalanceInProcess
          else heartbeatOK := by
        unfold GroupHost.heartbeat
        simp only [found, known, ne_eq, current, not_true_eq_false, if_false]
      refine ⟨?_, ?_, ?_⟩
      · intro stable _
        rw [code, if_neg]
        rintro (other | other) <;> cases stable.symm.trans other
      · intro rebalancing
        rw [code, if_pos rebalancing, current]
        exact ⟨rfl, heartbeat_restarts reached found known⟩
      · rw [code]
        split <;> decide
  · rintro rfl
    exact generation_eq_iff reached (List.mem_reverse.mp (List.mem_of_find?_eq_some latest))
      (GroupStore.group_some.mp found).2

/-- A member of a stable group, in the generation of its join result. -/
theorem heartbeat_answers_stable : ∃ h g m d, machine.Run h ∧ h.store.group "g" = some (0, g) ∧ g.member "a" = some m ∧
    h.store.latestJoin "g" "a" = some d ∧ g.state = .stable ∧ Answers h "g" "a" g d.generationId := by
  have schedule := Machine.exec_reaches machine (fun _ _ => True) (fun _ _ => true) (fun _ _ _ => trivial)
    [.joinGroup (joinOf "a"), .syncGroup ⟨"g", "a", 1, some oneEach⟩]
    (fun h => (h.store.group "g").any fun entry => decide (entry.1 = 0 ∧ entry.2.state = .stable) &&
      (entry.2.member "a").isSome &&
      (h.store.latestJoin "g" "a").any fun d => decide (d.generationId = entry.2.generationId))
    rfl (by decide +kernel)
  obtain ⟨h, reached, ends⟩ := schedule
  obtain ⟨⟨p, g⟩, found, ends⟩ := (Option.any_eq_true _ _).mp ends
  simp only [Bool.and_eq_true, decide_eq_true_eq] at ends
  obtain ⟨⟨⟨rfl, stable⟩, member⟩, joined⟩ := ends
  obtain ⟨m, known⟩ := Option.isSome_iff_exists.mp member
  obtain ⟨d, latest, same⟩ := (Option.any_eq_true _ _).mp joined
  exact ⟨h, g, m, d, reached, found, known, latest, stable,
    (heartbeat_answers_iff h reached "g" "a" 0 g m d found known latest).1.mpr (of_decide_eq_true same)⟩

/-- A second member joins a stable group. The first one has not joined again, and its heartbeat is answered with
`ILLEGAL_GENERATION`. -/
theorem heartbeat_illegal : ∃ h g m d, machine.Run h ∧ h.store.group "g" = some (0, g) ∧ g.member "a" = some m ∧
    h.store.latestJoin "g" "a" = some d ∧ g.state = .preparingRebalance ∧
    (h.heartbeat "g" "a" d.generationId).2 = heartbeatIllegalGeneration ∧ ¬ Answers h "g" "a" g d.generationId := by
  have schedule := Machine.exec_reaches machine (fun _ _ => True) (fun _ _ => true) (fun _ _ _ => trivial)
    [.joinGroup (joinOf "a"), .syncGroup ⟨"g", "a", 1, some oneEach⟩, .joinGroup (joinOf "b")]
    (fun h => (h.store.group "g").any fun entry => decide (entry.1 = 0 ∧ entry.2.state = .preparingRebalance) &&
      (entry.2.member "a").isSome &&
      (h.store.latestJoin "g" "a").any fun d =>
        decide ((h.heartbeat "g" "a" d.generationId).2 = heartbeatIllegalGeneration))
    rfl (by decide +kernel)
  obtain ⟨h, reached, ends⟩ := schedule
  obtain ⟨⟨p, g⟩, found, ends⟩ := (Option.any_eq_true _ _).mp ends
  simp only [Bool.and_eq_true, decide_eq_true_eq] at ends
  obtain ⟨⟨⟨rfl, preparing⟩, member⟩, joined⟩ := ends
  obtain ⟨m, known⟩ := Option.isSome_iff_exists.mp member
  obtain ⟨d, latest, illegal⟩ := (Option.any_eq_true _ _).mp joined
  have illegal := of_decide_eq_true illegal
  exact ⟨h, g, m, d, reached, found, known, latest, preparing, illegal, fun answers => answers.legal illegal⟩

end KafGo.Group
