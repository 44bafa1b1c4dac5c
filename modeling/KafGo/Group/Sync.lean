import KafGo.Group.Consistent

/-!
# The SyncGroup calls of a generation

After the barrier has closed every member calls `SyncGroup`, the leader with the assignment. Calls before the
leader's are parked and answered by it. The leader's call makes the group `Stable`, and calls after it are turned
away: the branch that would answer them from `leaderAssignment` is behind the check of the state.
-/

namespace KafGo.Group
open Lib

/-- The members call one after another; each has its channel or its error code. -/
def syncCalls (request : String → SyncRequest) : List String → GroupHost → GroupHost × List (String × Except Int Nat)
  | [], h => (h, [])
  | memberId :: rest, h =>
    let (h, result) := h.syncGroup (request memberId)
    let (h, results) := syncCalls request rest h
    (h, (memberId, result) :: results)

def memberSync (g : GroupMeta) (groupId : String) (a : Assignments) (memberId : String) : SyncRequest :=
  ⟨groupId, memberId, g.generationId, if memberId = g.leaderId then some a else none⟩

def Obtains (h : GroupHost) (a : Assignments) : String × Except Int Nat → Prop
  | (memberId, .ok resultCh) => ∃ box, h.store.syncChs[resultCh]? = some box ∧ box.sent = [a.result memberId]
  | (_, .error _) => False

theorem syncCalls_append (request : String → SyncRequest) (early late : List String) (h : GroupHost) :
    syncCalls request (early ++ late) h =
      ((syncCalls request late (syncCalls request early h).1).1,
        (syncCalls request early h).2 ++ (syncCalls request late (syncCalls request early h).1).2) := by
  induction early generalizing h with
  | nil => rfl
  | cons memberId early ih =>
    simp only [List.cons_append, syncCalls, ih]

/-- The members that have called wait for the leader. -/
structure Collecting (h : GroupHost) (groupId : String) (p : Nat) (g : GroupMeta) : Prop where
  found : h.store.group groupId = some (p, g)
  completing : g.state = .completingRebalance
  unknown : g.leaderAssignment = none
  distinct : (g.pendingSyncs.map (·.resultSync)).Nodup
  empty : ∀ ps ∈ g.pendingSyncs, h.store.syncChs[ps.resultSync]? = some ⟨p, []⟩

variable {h : GroupHost} {groupId : String} {p : Nat} {g : GroupMeta}

theorem Collecting.lt (collecting : Collecting h groupId p g) {ps : PendingSync} (parked : ps ∈ g.pendingSyncs) :
    ps.resultSync < h.store.syncChs.length :=
  (List.getElem?_eq_some_iff.mp (collecting.empty ps parked)).1

theorem Collecting.park (collecting : Collecting h groupId p g) (memberId : String) :
    Collecting { h with store := h.store.parkSync p g memberId g.generationId } groupId p
      (g.parkSync memberId g.generationId h.store.syncChs.length) where
  found := by
    obtain ⟨registered, at_p⟩ := GroupStore.group_some.mp collecting.found
    exact GroupStore.group_some.mpr ⟨registered, List.getElem?_set_self (List.getElem?_eq_some_iff.mp at_p).1⟩
  completing := collecting.completing
  unknown := collecting.unknown
  distinct := by
    apply nodup_map_concat collecting.distinct
    intro ps parked
    exact Nat.ne_of_lt (collecting.lt parked)
  empty ps parked := by
    show (h.store.syncChs ++ [⟨p, []⟩])[ps.resultSync]? = _
    rcases List.mem_append.mp parked with old | new
    · rw [List.getElem?_append_left (collecting.lt old)]
      exact collecting.empty ps old
    · rw [List.mem_singleton.mp new, List.getElem?_append_right (Nat.le_refl _), Nat.sub_self]
      rfl

theorem Collecting.follower (collecting : Collecting h groupId p g) {memberId : String}
    (follows : memberId ≠ g.leaderId) (a : Assignments) : h.syncGroup (memberSync g groupId a memberId) =
      ({ h with store := h.store.parkSync p g memberId g.generationId }, .ok h.store.syncChs.length) := by
  simp only [GroupHost.syncGroup, memberSync, collecting.found, collecting.completing, collecting.unknown, ne_eq,
    not_true_eq_false, follows, ↓reduceIte]

theorem Collecting.leader (collecting : Collecting h groupId p g) (a : Assignments) :
    h.syncGroup (memberSync g groupId a g.leaderId) =
      ({ h with store := h.store.submit p g g.leaderId g.generationId a }, .ok h.store.syncChs.length) := by
  simp only [GroupHost.syncGroup, memberSync, collecting.found, collecting.completing, ne_eq, not_true_eq_false,
    ↓reduceIte]

def GroupMeta.parkedCalls (g : GroupMeta) : List (String × Except Int Nat) :=
  g.pendingSyncs.map fun ps => (ps.memberId, .ok ps.resultSync)

theorem early_calls (a : Assignments) {early : List String} (collecting : Collecting h groupId p g)
    (follow : g.leaderId ∉ early) :
    ∃ g', Collecting (syncCalls (memberSync g groupId a) early h).1 groupId p g' ∧
      g'.leaderId = g.leaderId ∧ g'.generationId = g.generationId ∧
      g'.parkedCalls = g.parkedCalls ++ (syncCalls (memberSync g groupId a) early h).2 := by
  induction early generalizing h g with
  | nil => exact ⟨g, collecting, rfl, rfl, (List.append_nil _).symm⟩
  | cons memberId early ih =>
    rw [List.mem_cons, not_or] at follow
    obtain ⟨g', collecting', leader, generation, calls⟩ := ih (collecting.park memberId) follow.2
    have first := collecting.follower (Ne.symm follow.1) a
    simp only [syncCalls, first]
    refine ⟨g', collecting', leader, generation, calls.trans ?_⟩
    simp only [GroupMeta.parkedCalls, GroupMeta.parkSync, List.map_append, List.map_singleton, List.append_assoc,
      List.singleton_append]
    rfl

theorem late_calls (request : String → SyncRequest) (late : List String) {g : GroupMeta}
    (found : ∀ memberId, h.store.group (request memberId).groupId = some (p, g))
    (current : ∀ memberId, (request memberId).generationId = g.generationId) (stable : g.state = .stable) :
    syncCalls request late h = (h, late.map fun memberId => (memberId, .error errRebalanceInProgress)) := by
  induction late with
  | nil => rfl
  | cons memberId late ih =>
    have refused : h.syncGroup (request memberId) = (h, .error errRebalanceInProgress) := by
      simp only [GroupHost.syncGroup, found, current, stable, ne_eq, not_true_eq_false, ↓reduceIte, reduceCtorEq,
        not_false_eq_true]
    simp only [syncCalls, refused, ih, List.map_cons]

theorem Collecting.answers (collecting : Collecting h groupId p g) (a : Assignments) :
    ∀ r ∈ g.parkedCalls ++ [(g.leaderId, .ok h.store.syncChs.length)],
      Obtains { h with store := h.store.submit p g g.leaderId g.generationId a } a r := by
  have keys : (g.pendingSyncs.map fun ps => (ps.resultSync, a.result ps.memberId)).map Prod.fst =
      g.pendingSyncs.map (·.resultSync) := List.map_map
  intro r member
  rcases List.mem_append.mp member with parked | own
  · obtain ⟨ps, waits, rfl⟩ := List.mem_map.mp parked
    refine ⟨⟨p, [a.result ps.memberId]⟩, ?_, rfl⟩
    have written : (ps.resultSync, a.result ps.memberId) ∈
        g.pendingSyncs.map fun ps => (ps.resultSync, a.result ps.memberId) := List.mem_map.mpr ⟨ps, waits, rfl⟩
    refine sendAll_mem (keys ▸ collecting.distinct) written (show _ = some ⟨p, []⟩ from ?_)
    rw [List.getElem?_append_left (collecting.lt waits)]
    exact collecting.empty ps waits
  · rw [List.mem_singleton.mp own]
    refine ⟨⟨p, [a.result g.leaderId]⟩, ?_, rfl⟩
    refine (sendAll_other ?_ _).trans ?_
    · rw [keys]
      intro parked
      obtain ⟨ps, waits, same⟩ := List.mem_map.mp parked
      exact Nat.ne_of_lt (collecting.lt waits) same
    · rw [List.getElem?_append_right (Nat.le_refl _), Nat.sub_self]
      rfl

theorem all_calls (a : Assignments) (collecting : Collecting h groupId p g) (fresh : g.pendingSyncs = [])
    {early : List String} (follow : g.leaderId ∉ early) (late : List String) :
    ∃ answered, (syncCalls (memberSync g groupId a) (early ++ g.leaderId :: late) h).2 =
        answered ++ late.map (fun memberId => (memberId, .error errRebalanceInProgress)) ∧
      ∀ r ∈ answered, Obtains (syncCalls (memberSync g groupId a) (early ++ g.leaderId :: late) h).1 a r := by
  obtain ⟨g', collecting', leader, generation, calls⟩ := early_calls a collecting follow
  rw [syncCalls_append]
  generalize syncCalls (memberSync g groupId a) early h = before at collecting' calls ⊢
  obtain ⟨h₁, results⟩ := before
  dsimp only at collecting' calls ⊢
  have same : memberSync g groupId a = memberSync g' groupId a := by
    unfold memberSync
    rw [leader, generation]
  obtain ⟨registered, at_p⟩ := GroupStore.group_some.mp collecting'.found
  have assigned : GroupStore.group (h₁.store.submit p g' g'.leaderId g'.generationId a) groupId =
    some (p, g'.assigned a) :=
    GroupStore.group_some.mpr ⟨registered, List.getElem?_set_self (List.getElem?_eq_some_iff.mp at_p).1⟩
  have rest := late_calls (h := { h₁ with store := h₁.store.submit p g' g'.leaderId g'.generationId a })
    (memberSync g' groupId a) late
    (fun _ => assigned) (fun _ => rfl) rfl
  simp only [syncCalls, same, ← leader, collecting'.leader a, rest]
  refine ⟨g'.parkedCalls ++ [(g'.leaderId, .ok h₁.store.syncChs.length)], ?_, collecting'.answers a⟩
  rw [calls, GroupMeta.parkedCalls, fresh, List.map_nil, List.nil_append, List.append_assoc, List.singleton_append]

/-- In every state of every run: when the barrier of a generation has closed and no member has called yet, all
members obtain their parts of the leader's assignment exactly if the leader calls last. -/
theorem sync_order (h : GroupHost) (reached : machine.Run h) (groupId : String) (p : Nat) (g : GroupMeta)
    (found : h.store.group groupId = some (p, g)) (closed : g.state = .completingRebalance)
    (fresh : g.pendingSyncs = []) (leads : g.leaderId ∈ g.memberIds) (a : Assignments) (order : List String)
    (once : order.Perm g.memberIds) :
    (∀ r ∈ (syncCalls (memberSync g groupId a) order h).2, Obtains (syncCalls (memberSync g groupId a) order h).1 a r) ↔
      order.getLast? = some g.leaderId := by
  have consistent := guarded_consistent (run_free reached) g (List.mem_of_getElem? (GroupStore.group_some.mp found).2)
  have distinct := once.nodup_iff.mpr consistent.distinct
  have collecting : Collecting h groupId p g := by
    refine ⟨found, closed, consistent.unassigned (Or.inr closed), ?_, ?_⟩
    · rw [fresh]
      exact List.nodup_nil
    · rw [fresh]
      exact nofun
  obtain ⟨early, late, rfl⟩ := List.append_of_mem (once.mem_iff.mpr leads)
  obtain ⟨_, leader_once, apart⟩ := List.nodup_append.mp distinct
  have follow : g.leaderId ∉ early := fun inside => apart _ inside _ List.mem_cons_self rfl
  obtain ⟨answered, results, obtained⟩ := all_calls a collecting fresh follow late
  rw [results]
  cases late with
  | nil =>
    rw [List.map_nil, List.append_nil, List.getLast?_concat]
    exact ⟨fun _ => rfl, fun _ => obtained⟩
  | cons next late =>
    constructor
    · intro all
      exact (all _ (List.mem_append_right _ List.mem_cons_self)).elim
    · intro last
      rw [List.getLast?_append_of_ne_nil _ (List.cons_ne_nil _ _), List.getLast?_cons_cons] at last
      exact absurd (List.mem_of_getLast? last) (List.nodup_cons.mp leader_once).1

/-- The first member calls, then the second one, which leads. -/
theorem sync_order_last : ∃ h g, machine.Run h ∧ h.store.group "g" = some (0, g) ∧ g.leaderId = "b" ∧
    ∀ r ∈ (syncCalls (memberSync g "g" oneEach) ["a", "b"] h).2,
      Obtains (syncCalls (memberSync g "g" oneEach) ["a", "b"] h).1 oneEach r := by
  have schedule := exec_group .free
    [.joinGroup (joinOf "a"), .syncGroup ⟨"g", "a", 1, some oneEach⟩, .joinGroup (joinOf "b"), .joinGroup (joinOf "a")]
    (fun h g => decide (h.store.groups "g" = some 0 ∧ g.state = .completingRebalance ∧ g.pendingSyncs.length = 0 ∧
      g.leaderId = "b" ∧ g.memberIds = ["a", "b"]))
    (by decide +kernel)
  obtain ⟨h, g, reached, at_0, ends⟩ := schedule
  obtain ⟨registered, closed, fresh, leader, members⟩ := of_decide_eq_true ends
  have found := GroupStore.group_some.mpr ⟨registered, at_0⟩
  refine ⟨h, g, guarded_run reached, found, leader, ?_⟩
  apply (sync_order h (guarded_run reached) "g" 0 g found closed
    (List.length_eq_zero_iff.mp fresh) ?_ oneEach ["a", "b"]
    (members ▸ List.Perm.refl _)).mpr
  · rw [leader]
    rfl
  · rw [leader, members]
    exact List.mem_cons_of_mem _ List.mem_cons_self

/-- The leader calls first; the other member is told that a rebalance is in progress. -/
theorem sync_refused : ∃ h g, machine.Run h ∧ h.store.group "g" = some (0, g) ∧ g.state = .completingRebalance ∧
    g.pendingSyncs.length = 0 ∧ g.memberIds = ["a", "b"] ∧
    (syncCalls (memberSync g "g" oneEach) ["b", "a"] h).2 = [("b", .ok 1), ("a", .error errRebalanceInProgress)] := by
  have schedule := exec_group .free
    [.joinGroup (joinOf "a"), .syncGroup ⟨"g", "a", 1, some oneEach⟩, .joinGroup (joinOf "b"), .joinGroup (joinOf "a")]
    (fun h g => decide (h.store.groups "g" = some 0 ∧ g.state = .completingRebalance ∧ g.pendingSyncs.length = 0 ∧
      g.memberIds = ["a", "b"] ∧ (syncCalls (memberSync g "g" oneEach) ["b", "a"] h).2 =
        [("b", .ok 1), ("a", .error errRebalanceInProgress)]))
    (by decide +kernel)
  obtain ⟨h, g, reached, at_0, ends⟩ := schedule
  obtain ⟨registered, state⟩ := of_decide_eq_true ends
  exact ⟨h, g, guarded_run reached, GroupStore.group_some.mpr ⟨registered, at_0⟩, state⟩

end KafGo.Group
