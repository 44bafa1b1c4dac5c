import KafGo.Group.Store
import Mathlib.Logic.Relation

/-!
# What the operations do to the store

`Change` lists the elementary changes of the store, one rule for each. Every step of a run is a sequence of them,
and invariants are proved over the rules. A `Guard` restricts what the steps of a run may find; the guard of a
step is a condition on the state before it.
-/

namespace KafGo.Group
open Lib

/-- `discard` is asked where parked requests would be thrown away, `park` where a join is parked, `submit` where
the leader's assignment is accepted, and `expire` where a rebalance timeout passes the check of the
generation. -/
structure Guard where
  discard : List PendingJoin → List PendingSync → Bool
  park : GroupState → List PendingJoin → String → Bool
  submit : List PendingJoin → Bool
  expire : GroupMeta → Bool
  discard_nil : discard [] [] = true
  park_nil : ∀ memberId, park .preparingRebalance [] memberId = true

namespace Guard

def free : Guard where
  discard _ _ := true
  park _ _ _ := true
  submit _ := true
  expire _ := true
  discard_nil := rfl
  park_nil _ := rfl

def meetsDrop (guard : Guard) (h : GroupHost) (groupId memberId : String) : Bool :=
  match h.store.group groupId with
  | none => true
  | some (_, g) =>
    (g.member memberId).isNone || decide ((g.deleteMember memberId).members.length = 0) ||
      guard.discard g.pendingJoins g.pendingSyncs

def meetsJoin (guard : Guard) (h : GroupHost) (q : JoinRequest) : Bool :=
  match h.store.group q.groupId with
  | none => true
  | some (_, g) =>
    decide (q.memberId = "") ||
      if g.startsRebalance then guard.discard g.pendingJoins g.pendingSyncs
      else guard.park g.state g.pendingJoins q.memberId

def meetsSync (guard : Guard) (h : GroupHost) (q : SyncRequest) : Bool :=
  match h.store.group q.groupId with
  | none => true
  | some (_, g) =>
    !(decide (q.generationId = g.generationId) && decide (g.state = .completingRebalance) &&
      decide (q.memberId = g.leaderId) && q.assignments.isSome) || guard.submit g.pendingJoins

def meetsCallback (guard : Guard) (h : GroupHost) : Callback → Bool
  | .evict groupId memberId => guard.meetsDrop h groupId memberId
  | .timeout groupId expectedGeneration => match h.store.group groupId with
    | none => true
    | some (_, g) => !decide (g.generationId = expectedGeneration) || guard.expire g
  | .cleanup groupId => match h.store.group groupId with
    | none => true
    | some (_, g) => !decide (g.state = .dead) || guard.discard g.pendingJoins g.pendingSyncs
  | .rebalance _ => true

def meets (guard : Guard) (h : GroupHost) : GroupAction → Bool
  | .joinGroup q => guard.meetsJoin h q
  | .leaveGroup groupId memberId => guard.meetsDrop h groupId memberId
  | .syncGroup q => guard.meetsSync h q
  | .run callback => match h.callbacks[callback]? with
    | none => true
    | some c => guard.meetsCallback h c
  | _ => true

end Guard

def GroupStore.Holds (s : GroupStore) (p : Nat) : Prop := ∃ groupId, s.groups groupId = some p

inductive Change (guard : Guard) (s : GroupStore) : GroupStore → Prop where
  | created (groupId protocolName : String) (missing : s.group groupId = none) :
      Change guard s (s.create (newGroup groupId protocolName))
  | enrolled (p : Nat) (g : GroupMeta) (member : GroupMemberMetadata) (at_p : s.heap[p]? = some g)
      (timed : member.sessionTimer.isSome) (open_g : g.startsRebalance = false ∨ member.memberId ∈ g.memberIds) :
      Change guard s (s.write p (g.putMember member))
  | restarted (p : Nat) (g : GroupMeta) (member : GroupMemberMetadata) (timer : Nat) (at_p : s.heap[p]? = some g)
      (timed : member.sessionTimer.isSome) (permitted : guard.discard g.pendingJoins g.pendingSyncs = true) :
      Change guard s (s.write p ((g.putMember member).prepared timer))
  | parked (p : Nat) (g : GroupMeta) (memberId : String) (at_p : s.heap[p]? = some g) (held : s.Holds p)
      (started : g.startsRebalance = false) (known : memberId ∈ g.memberIds)
      (permitted : guard.park g.state g.pendingJoins memberId = true) :
      Change guard s ((s.openJoin p).write p (g.parkJoin memberId s.joinChs.length))
  | closed (p : Nat) (g : GroupMeta) (first : PendingJoin) (rest : List PendingJoin) (at_p : s.heap[p]? = some g)
      (preparing : g.state = .preparingRebalance) (joins : g.pendingJoins = first :: rest)
      (all : g.pendingJoins.length = g.members.length) :
      Change guard s ((s.deliver p g first.memberId).write p (g.closed first.memberId))
  | died (p : Nat) (g : GroupMeta) (memberId : String) (at_p : s.heap[p]? = some g)
      (last : (g.deleteMember memberId).members = []) :
      Change guard s (s.write p { g.deleteMember memberId with state := .dead })
  | dropped (p : Nat) (g : GroupMeta) (memberId : String) (timer : Nat) (at_p : s.heap[p]? = some g)
      (permitted : guard.discard g.pendingJoins g.pendingSyncs = true) :
      Change guard s (s.write p ((g.deleteMember memberId).prepared timer))
  | expired (p : Nat) (g : GroupMeta) (at_p : s.heap[p]? = some g) (permitted : guard.expire g = true) :
      Change guard s (s.write p g.expired)
  | submitted (p : Nat) (g : GroupMeta) (a : Assignments) (at_p : s.heap[p]? = some g)
      (completing : g.state = .completingRebalance) (permitted : guard.submit g.pendingJoins = true) :
      Change guard s (s.submit p g g.leaderId g.generationId a)
  | replied (p : Nat) (g : GroupMeta) (memberId : String) (a : Assignments) (at_p : s.heap[p]? = some g)
      (completing : g.state = .completingRebalance) (known : g.leaderAssignment = some a) :
      Change guard s (s.reply p g memberId g.generationId a)
  | parkedSync (p : Nat) (g : GroupMeta) (memberId : String) (at_p : s.heap[p]? = some g) (held : s.Holds p)
      (completing : g.state = .completingRebalance) (unknown : g.leaderAssignment = none) :
      Change guard s (s.parkSync p g memberId g.generationId)
  | deleted (groupId : String) (p : Nat) (g : GroupMeta) (found : s.group groupId = some (p, g))
      (dead : g.state = .dead) (permitted : guard.discard g.pendingJoins g.pendingSyncs = true) :
      Change guard s (s.delete groupId)

abbrev Changes (guard : Guard) : GroupStore → GroupStore → Prop := Relation.ReflTransGen (Change guard)

namespace GroupStore

variable {s : GroupStore}

theorem group_some {groupId : String} {p : Nat} {g : GroupMeta} :
    s.group groupId = some (p, g) ↔ s.groups groupId = some p ∧ s.heap[p]? = some g := by
  unfold group
  rw [Option.bind_eq_some_iff]
  constructor
  · rintro ⟨q, registered, found⟩
    obtain ⟨g', at_q, same⟩ := Option.map_eq_some_iff.mp found
    obtain ⟨rfl, rfl⟩ := Prod.mk.inj same
    exact ⟨registered, at_q⟩
  · rintro ⟨registered, at_p⟩
    exact ⟨p, registered, by rw [at_p, Option.map_some]⟩

theorem create_holds (s : GroupStore) (g : GroupMeta) : (s.create g).Holds s.heap.length := by
  refine ⟨g.groupId, ?_⟩
  show Function.update s.groups g.groupId (some s.heap.length) g.groupId = _
  rw [Function.update_self]

theorem forall_set {heap : List GroupMeta} {p : Nat} {g' : GroupMeta} {inv : Nat → GroupMeta → Prop}
    (each : ∀ q g, heap[q]? = some g → q ≠ p → inv q g) (new : inv p g') :
    ∀ q g, (heap.set p g')[q]? = some g → inv q g := by
  intro q g at_q
  by_cases same : q = p
  · subst same
    obtain ⟨inside, found⟩ := List.getElem?_eq_some_iff.mp at_q
    rw [List.getElem_set_self] at found
    exact found ▸ new
  · rw [List.getElem?_set_ne (Ne.symm same)] at at_q
    exact each q g at_q same

end GroupStore

/-! ### The operations as changes -/

namespace GroupHost

@[simp] theorem stopIfSet_store (h : GroupHost) (timer : Option Nat) : (h.stopIfSet timer).store = h.store := by
  cases timer <;> rfl

theorem resetSessionTimer_spec (h : GroupHost) (groupId : String) (member : GroupMemberMetadata) :
    (h.resetSessionTimer groupId member).1.store = h.store ∧
      (h.resetSessionTimer groupId member).2.sessionTimer.isSome ∧
      (h.resetSessionTimer groupId member).2.memberId = member.memberId := by
  unfold resetSessionTimer
  split
  · exact ⟨rfl, rfl, rfl⟩
  · rename_i k set
    exact ⟨rfl, by rw [set]; rfl, rfl⟩

theorem transition_store (h : GroupHost) (p : Nat) (g : GroupMeta) :
    (h.transitionToPrepareRebalance p g).1.store = h.store := stopIfSet_store h g.rebalanceTimer

theorem stopAll_store (members : List GroupMemberMetadata) (h : GroupHost) :
    (members.foldl (fun h m => h.stopIfSet m.sessionTimer) h).store = h.store := by
  induction members generalizing h with
  | nil => rfl
  | cons m members ih => exact (ih _).trans (stopIfSet_store h m.sessionTimer)

variable {guard : Guard}

variable {p : Nat} {g : GroupMeta}

theorem close_changes (guard : Guard) (h : GroupHost) (bound : p < h.store.heap.length) (g : GroupMeta) :
    Changes guard (h.store.write p g)
      ((h.maybeCloseJoinBarrier p g).1.store.write p (h.maybeCloseJoinBarrier p g).2) := by
  unfold maybeCloseJoinBarrier
  split
  · exact .refl
  · rename_i preparing
    split
    · exact .refl
    · rename_i all
      cases joins : g.pendingJoins with
      | nil => exact .refl
      | cons first rest =>
        have here : (h.store.write p g).heap[p]? = some g := List.getElem?_set_self bound
        have close : Change guard _ _ := .closed p g first rest here (not_not.mp preparing) joins (not_not.mp all)
        apply Relation.ReflTransGen.single
        simpa only [stopIfSet_store, GroupStore.deliver, GroupStore.write, List.set_set] using close

theorem joining_memberId (g : GroupMeta) (q : JoinRequest) : (g.joining q).memberId = q.memberId := by
  unfold GroupMeta.joining
  cases found : g.member q.memberId with
  | none => rfl
  | some member => exact (lookupKey_some found).2

theorem enrol_spec (h : GroupHost) (g : GroupMeta) (q : JoinRequest) :
    ∃ member, (h.enrol g q).2 = g.putMember member ∧ member.sessionTimer.isSome ∧ member.memberId = q.memberId ∧
      (h.enrol g q).1.store = h.store := by
  obtain ⟨store, timed, same⟩ := h.resetSessionTimer_spec g.groupId (g.joining q)
  exact ⟨_, rfl, timed, same.trans (joining_memberId g q), store⟩

theorem findOrCreate_changes (guard : Guard) (h : GroupHost) (groupId protocolName : String) :
    ∃ h' p g, h.findOrCreate groupId protocolName = (h', p, g) ∧ Changes guard h.store h'.store ∧
      h'.store.heap[p]? = some g ∧ h'.store.Holds p ∧
      (h.store.group groupId = some (p, g) ∨ g = newGroup groupId protocolName) := by
  unfold findOrCreate
  cases found : h.store.group groupId with
  | some entry =>
    obtain ⟨p, g⟩ := entry
    obtain ⟨registered, at_p⟩ := GroupStore.group_some.mp found
    exact ⟨h, p, g, rfl, .refl, at_p, ⟨groupId, registered⟩, Or.inl rfl⟩
  | none =>
    refine ⟨_, _, _, rfl, .single (.created groupId protocolName found), ?_, GroupStore.create_holds _ _, Or.inr rfl⟩
    show (h.store.heap ++ [newGroup groupId protocolName])[h.store.heap.length]? = _
    rw [List.getElem?_append_right (Nat.le_refl _), Nat.sub_self]
    rfl

theorem park_changes (h : GroupHost) (bound : p < h.store.heap.length) (held : h.store.Holds p) {memberId : String}
    (started : g.startsRebalance = false) (known : memberId ∈ g.memberIds)
    (permitted : guard.park g.state g.pendingJoins memberId = true) :
    Changes guard (h.store.write p g) ((h.park p g memberId).1.store.write p (h.park p g memberId).2) := by
  have here : (h.store.write p g).heap[p]? = some g := List.getElem?_set_self bound
  have parks : Change guard _ _ := .parked p g memberId here held started known permitted
  have closes := close_changes guard { h with store := h.store.openJoin p } bound
    (g.parkJoin memberId h.store.joinChs.length)
  refine .head ?_ closes
  simpa only [GroupStore.openJoin, GroupStore.write, List.set_set] using parks

theorem meetsJoin_origin {h : GroupHost} {q : JoinRequest} (meets : guard.meetsJoin h q = true)
    (named : q.memberId ≠ "") (origin : h.store.group q.groupId = some (p, g) ∨ g = newGroup q.groupId q.protocolName) :
    (g.startsRebalance = true → guard.discard g.pendingJoins g.pendingSyncs = true) ∧
      (g.startsRebalance = false → guard.park g.state g.pendingJoins q.memberId = true) := by
  rcases origin with found | rfl
  · simp only [Guard.meetsJoin, found, decide_eq_false named, Bool.false_or] at meets
    constructor
    · intro starts
      rwa [if_pos starts] at meets
    · intro started
      rwa [if_neg (Bool.eq_false_iff.mp started)] at meets
  · exact ⟨fun _ => guard.discard_nil, fun started => by cases started⟩

theorem joinGroup_changes (h : GroupHost) (q : JoinRequest) (meets : guard.meetsJoin h q = true) :
    Changes guard h.store (h.joinGroup q).1.store := by
  unfold joinGroup
  obtain ⟨h₁, p, g, made, created, at_p, held, origin⟩ := findOrCreate_changes guard h q.groupId q.protocolName
  rw [made]
  dsimp only
  split
  · exact created
  · rename_i named
    obtain ⟨discards, parks⟩ := meetsJoin_origin meets named origin
    obtain ⟨member, grown, timed, same, store₂⟩ := h₁.enrol_spec g q
    generalize h₁.enrol g q = enrolment at grown store₂ ⊢
    obtain ⟨h₂, g₂⟩ := enrolment
    dsimp only at grown store₂ ⊢
    subst grown
    rw [← store₂] at created at_p held
    have bound : p < h₂.store.heap.length := (List.getElem?_eq_some_iff.mp at_p).1
    have known : q.memberId ∈ (g.putMember member).memberIds := (mem_keys_insertKey member).mpr (Or.inr same.symm)
    refine created.trans ?_
    split
    · rename_i starts
      have restarts : Change guard _ _ := .restarted p g member
        (h₂.stopIfSet (g.putMember member).rebalanceTimer).timers.length at_p timed (discards starts)
      have store₃ := h₂.transition_store p (g.putMember member)
      refine .head ?_ (park_changes _ (store₃ ▸ bound) (store₃ ▸ held) rfl known (guard.park_nil _))
      rw [store₃]
      exact restarts
    · rename_i going
      have started := Bool.eq_false_iff.mpr going
      have enrols : Change guard _ _ := .enrolled p g member at_p timed (Or.inl started)
      exact .head enrols (park_changes h₂ bound held started known (parks started))

theorem dropMember_changes {h : GroupHost} {groupId memberId : String} (found : h.store.group groupId = some (p, g))
    (known : (g.member memberId).isSome) (meets : guard.meetsDrop h groupId memberId = true) (h' : GroupHost)
    (same : h'.store = h.store) :
    Changes guard h.store (h'.dropMember p g memberId).store := by
  have at_p := (GroupStore.group_some.mp found).2
  unfold dropMember
  dsimp only
  split
  · rename_i last
    have dies : Change guard _ _ := .died p g memberId at_p (List.length_eq_zero_iff.mp last)
    rw [← same] at dies ⊢
    exact .single dies
  · rename_i others
    have permitted : guard.discard g.pendingJoins g.pendingSyncs = true := by
      simpa only [Guard.meetsDrop, found, Option.isNone_eq_false_iff.mpr known, decide_eq_false others,
        Bool.false_or] using meets
    have drops : Change guard _ _ :=
      .dropped p g memberId (h'.stopIfSet (g.deleteMember memberId).rebalanceTimer).timers.length at_p permitted
    show Changes guard h.store ((h'.transitionToPrepareRebalance p (g.deleteMember memberId)).1.store.write p _)
    rw [transition_store, same]
    exact .single drops

theorem evictMember_changes (h : GroupHost) (groupId memberId : String)
    (meets : guard.meetsDrop h groupId memberId = true) :
    Changes guard h.store (h.evictMember groupId memberId).store := by
  unfold evictMember
  split
  · exact .refl
  · rename_i p g found
    split
    · exact .refl
    · rename_i member known
      split
      · exact .refl
      · exact dropMember_changes found (by rw [known]; rfl) meets h rfl

theorem leaveGroup_changes (h : GroupHost) (groupId memberId : String)
    (meets : guard.meetsDrop h groupId memberId = true) :
    Changes guard h.store (h.leaveGroup groupId memberId).1.store := by
  unfold leaveGroup
  split
  · exact .refl
  · rename_i p g found
    split
    · exact .refl
    · rename_i member known
      split
      · exact .refl
      · exact dropMember_changes found (by rw [known]; rfl) meets _ rfl

theorem onRebalanceTimeout_changes (h : GroupHost) (groupId : String) (expectedGeneration : Int)
    (meets : guard.meetsCallback h (.timeout groupId expectedGeneration) = true) :
    Changes guard h.store (h.onRebalanceTimeout groupId expectedGeneration).store := by
  unfold onRebalanceTimeout
  split
  · exact .refl
  · rename_i p g found
    have at_p := (GroupStore.group_some.mp found).2
    split
    · exact .refl
    · rename_i current
      dsimp only
      split
      · exact .refl
      · have permitted : guard.expire g = true := by
          simpa only [Guard.meetsCallback, found, decide_eq_true (not_not.mp current), Bool.not_true,
            Bool.false_or] using meets
        have expires : Change guard _ _ := .expired p g at_p permitted
        have stops := stopAll_store (g.members.filter fun m => !g.joined m.memberId) h
        refine .head expires ?_
        rw [← stops]
        apply close_changes
        rw [stops]
        exact (List.getElem?_eq_some_iff.mp at_p).1

theorem cleanup_changes (h : GroupHost) (groupId : String) (meets : guard.meetsCallback h (.cleanup groupId) = true) :
    Changes guard h.store (h.cleanup groupId).store := by
  unfold cleanup
  split
  · exact .refl
  · rename_i p g found
    split
    · rename_i dead
      apply Relation.ReflTransGen.single
      apply Change.deleted groupId p g found dead
      simpa only [Guard.meetsCallback, found, decide_eq_true dead, Bool.not_true, Bool.false_or] using meets
    · exact .refl

theorem heartbeat_changes (h : GroupHost) (groupId memberId : String) (generationId : Int) :
    Changes guard h.store (h.heartbeat groupId memberId generationId).1.store := by
  unfold heartbeat
  split
  · exact .refl
  · rename_i p g found
    split
    · exact .refl
    · rename_i member known
      split
      · exact .refl
      · obtain ⟨store, timed, same⟩ := h.resetSessionTimer_spec g.groupId member
        obtain ⟨inside, id⟩ := lookupKey_some known
        show Changes guard h.store ((h.resetSessionTimer g.groupId member).1.store.write p _)
        rw [store]
        refine .single (.enrolled p g _ (GroupStore.group_some.mp found).2 timed (Or.inr ?_))
        exact List.mem_map.mpr ⟨member, inside, same.symm⟩

theorem syncGroup_changes (h : GroupHost) (q : SyncRequest) (meets : guard.meetsSync h q = true) :
    Changes guard h.store (h.syncGroup q).1.store := by
  unfold syncGroup
  split
  · exact .refl
  · rename_i p g found
    obtain ⟨registered, at_p⟩ := GroupStore.group_some.mp found
    split
    · exact .refl
    · rename_i current
      split
      · exact .refl
      · rename_i completing
        dsimp only
        rw [not_not.mp current]
        split
        · rename_i a submits
          obtain ⟨leader, given⟩ : q.memberId = g.leaderId ∧ q.assignments = some a := by
            split at submits
            · exact ⟨by assumption, submits⟩
            · cases submits
          have permitted : guard.submit g.pendingJoins = true := by
            simpa only [Guard.meetsSync, found, decide_eq_true (not_not.mp current),
              decide_eq_true (not_not.mp completing), decide_eq_true leader, given, Option.isSome_some, Bool.and_true,
              Bool.not_true, Bool.false_or] using meets
          rw [leader]
          exact .single (.submitted p g a at_p (not_not.mp completing) permitted)
        · split
          · exact .single (.replied p g q.memberId _ at_p (not_not.mp completing) (by assumption))
          · exact .single (.parkedSync p g q.memberId at_p ⟨_, registered⟩ (not_not.mp completing) (by assumption))

end GroupHost

def GroupHost.taken (h : GroupHost) (callback : Nat) :
    GroupHost := { h with callbacks := h.callbacks.eraseIdx callback }

inductive Moved (h : GroupHost) : GroupAction → GroupHost → Prop where
  | heartbeat (groupId memberId : String) (generationId : Int) :
      Moved h (.heartbeat groupId memberId generationId) (h.heartbeat groupId memberId generationId).1
  | joinGroup (q : JoinRequest) : Moved h (.joinGroup q) (h.joinGroup q).1
  | leaveGroup (groupId memberId : String) : Moved h (.leaveGroup groupId memberId) (h.leaveGroup groupId memberId).1
  | syncGroup (q : SyncRequest) : Moved h (.syncGroup q) (h.syncGroup q).1
  | fire (timer : Nat) (t : Timer) : Moved h
      (.fire timer) { h.stop timer with callbacks := h.callbacks ++ [t.callback] }
  | read (callback : Nat) (g : GroupMeta) :
      Moved h (.read callback) { h with callbacks := h.callbacks.set callback (.timeout g.groupId g.generationId) }
  | evict (callback : Nat) (groupId memberId : String)
      (at_c : h.callbacks[callback]? = some (.evict groupId memberId)) :
      Moved h (.run callback) ((h.taken callback).evictMember groupId memberId)
  | timeout (callback : Nat) (groupId : String) (expectedGeneration : Int)
      (at_c : h.callbacks[callback]? = some (.timeout groupId expectedGeneration)) :
      Moved h (.run callback) ((h.taken callback).onRebalanceTimeout groupId expectedGeneration)
  | cleanup (callback : Nat) (groupId : String) (at_c : h.callbacks[callback]? = some (.cleanup groupId)) :
      Moved h (.run callback) ((h.taken callback).cleanup groupId)

variable {h : GroupHost} {guard : Guard} {s s' : GroupStore}

theorem step_moved {h' : GroupHost} {a : GroupAction} (moves : step a h = some h') : Moved h a h' := by
  unfold step at moves
  split at moves
  · cases moves
  · cases a with
    | heartbeat groupId memberId generationId => exact Option.some.inj moves ▸ .heartbeat groupId memberId generationId
    | joinGroup q => exact Option.some.inj moves ▸ .joinGroup q
    | leaveGroup groupId memberId => exact Option.some.inj moves ▸ .leaveGroup groupId memberId
    | syncGroup q => exact Option.some.inj moves ▸ .syncGroup q
    | fire timer =>
      dsimp only [GroupHost.fire] at moves
      split at moves
      · cases moves
      · split at moves
        · exact Option.some.inj moves ▸ .fire timer _
        · cases moves
    | read callback =>
      dsimp only [GroupHost.read] at moves
      split at moves
      · cases moves
      · obtain ⟨g, _, rfl⟩ := Option.map_eq_some_iff.mp moves
        exact .read callback g
      · cases moves
    | run callback =>
      obtain ⟨c, at_c, runs⟩ := Option.bind_eq_some_iff.mp moves
      cases c with
      | evict groupId memberId => exact Option.some.inj runs ▸ .evict callback groupId memberId at_c
      | timeout groupId expectedGeneration =>
        exact Option.some.inj runs ▸ .timeout callback groupId expectedGeneration at_c
      | cleanup groupId => exact Option.some.inj runs ▸ .cleanup callback groupId at_c
      | rebalance p => cases runs

theorem meets_callback {callback : Nat} {c : Callback} (at_c : h.callbacks[callback]? = some c)
    (meets : guard.meets h (.run callback) = true) :
    guard.meetsCallback (h.taken callback) c = true := by
  have permitted : guard.meetsCallback h c = true := by simpa only [Guard.meets, at_c] using meets
  cases c <;> exact permitted

/-- Every step that keeps to the guard is a sequence of changes that keep to it. -/
theorem step_changes {h' : GroupHost} {a : GroupAction} (meets : guard.meets h a = true) (moves : step a h = some h') :
    Changes guard h.store h'.store := by
  cases step_moved moves with
  | heartbeat groupId memberId generationId => exact h.heartbeat_changes groupId memberId generationId
  | joinGroup q => exact h.joinGroup_changes q meets
  | leaveGroup groupId memberId => exact h.leaveGroup_changes groupId memberId meets
  | syncGroup q => exact h.syncGroup_changes q meets
  | fire timer t => exact .refl
  | read callback g => exact .refl
  | evict callback groupId memberId at_c =>
    exact (h.taken callback).evictMember_changes groupId memberId (meets_callback at_c meets)
  | timeout callback groupId expectedGeneration at_c =>
    exact (h.taken callback).onRebalanceTimeout_changes groupId expectedGeneration (meets_callback at_c meets)
  | cleanup callback groupId at_c => exact (h.taken callback).cleanup_changes groupId (meets_callback at_c meets)

/-! ### Invariants of all runs -/

/-- What a change does to the one group it touches. -/
inductive GroupChange (guard : Guard) (g : GroupMeta) : GroupMeta → Prop where
  | enrolled (member : GroupMemberMetadata) (timed : member.sessionTimer.isSome)
      (open_g : g.startsRebalance = false ∨ member.memberId ∈ g.memberIds) : GroupChange guard g (g.putMember member)
  | restarted (member : GroupMemberMetadata) (timer : Nat) (timed : member.sessionTimer.isSome)
      (permitted : guard.discard g.pendingJoins g.pendingSyncs = true) :
      GroupChange guard g ((g.putMember member).prepared timer)
  | parked (memberId : String) (resultCh : Nat) (started : g.startsRebalance = false) (known : memberId ∈ g.memberIds)
      (permitted : guard.park g.state g.pendingJoins memberId = true) : GroupChange guard g
        (g.parkJoin memberId resultCh)
  | closed (first : PendingJoin) (rest : List PendingJoin) (preparing : g.state = .preparingRebalance)
      (joins : g.pendingJoins = first :: rest) (all : g.pendingJoins.length = g.members.length) :
      GroupChange guard g (g.closed first.memberId)
  | died (memberId : String) (last : (g.deleteMember memberId).members = []) :
      GroupChange guard g { g.deleteMember memberId with state := .dead }
  | dropped (memberId : String) (timer : Nat) (permitted : guard.discard g.pendingJoins g.pendingSyncs = true) :
      GroupChange guard g ((g.deleteMember memberId).prepared timer)
  | expired (permitted : guard.expire g = true) : GroupChange guard g g.expired
  | submitted (a : Assignments) (completing : g.state = .completingRebalance)
      (permitted : guard.submit g.pendingJoins = true) : GroupChange guard g (g.assigned a)
  | parkedSync (memberId : String) (resultSync : Nat) (completing : g.state = .completingRebalance)
      (unknown : g.leaderAssignment = none) :
      GroupChange guard g (g.parkSync memberId g.generationId resultSync)

theorem change_group (change : Change guard s s') :
    (∃ groupId protocolName, s'.heap = s.heap ++ [newGroup groupId protocolName]) ∨ s'.heap = s.heap ∨
      ∃ p g g', s.heap[p]? = some g ∧ s'.heap = s.heap.set p g' ∧ GroupChange guard g g' := by
  cases change with
  | created groupId protocolName missing => exact Or.inl ⟨groupId, protocolName, rfl⟩
  | enrolled p g member at_p timed open_g => exact Or.inr (Or.inr ⟨p, g, _, at_p, rfl, .enrolled member timed open_g⟩)
  | restarted p g member timer at_p timed permitted =>
    exact Or.inr (Or.inr ⟨p, g, _, at_p, rfl, .restarted member timer timed permitted⟩)
  | parked p g memberId at_p held started known permitted =>
    exact Or.inr (Or.inr ⟨p, g, _, at_p, rfl, .parked memberId _ started known permitted⟩)
  | closed p g first rest at_p preparing joins all =>
    exact Or.inr (Or.inr ⟨p, g, _, at_p, rfl, .closed first rest preparing joins all⟩)
  | died p g memberId at_p last => exact Or.inr (Or.inr ⟨p, g, _, at_p, rfl, .died memberId last⟩)
  | dropped p g memberId timer at_p permitted =>
    exact Or.inr (Or.inr ⟨p, g, _, at_p, rfl, .dropped memberId timer permitted⟩)
  | expired p g at_p permitted => exact Or.inr (Or.inr ⟨p, g, _, at_p, rfl, .expired permitted⟩)
  | submitted p g a at_p completing permitted =>
    exact Or.inr (Or.inr ⟨p, g, _, at_p, rfl, .submitted a completing permitted⟩)
  | replied p g memberId a at_p completing known => exact Or.inr (Or.inl rfl)
  | parkedSync p g memberId at_p held completing unknown =>
    exact Or.inr (Or.inr ⟨p, g, _, at_p, rfl, .parkedSync memberId _ completing unknown⟩)
  | deleted groupId p g found dead permitted => exact Or.inr (Or.inl rfl)

abbrev Guarded (guard : Guard) : GroupHost → Prop := machine.Reached fun h a => guard.meets h a = true

theorem free_meets (h : GroupHost) (a : GroupAction) : Guard.free.meets h a = true := by
  have drops : ∀ groupId memberId, Guard.free.meetsDrop h groupId memberId = true := by
    intro groupId memberId
    unfold Guard.meetsDrop
    split
    · rfl
    · exact Bool.or_true _
  cases a with
  | joinGroup q =>
    show Guard.free.meetsJoin h q = true
    unfold Guard.meetsJoin
    split
    · rfl
    · rw [Bool.or_eq_true]
      right
      split <;> rfl
  | leaveGroup groupId memberId => exact drops groupId memberId
  | syncGroup q =>
    show Guard.free.meetsSync h q = true
    unfold Guard.meetsSync
    split
    · rfl
    · exact Bool.or_true _
  | run callback =>
    simp only [Guard.meets]
    split
    · rfl
    · rename_i c _
      cases c with
      | evict groupId memberId => exact drops groupId memberId
      | timeout groupId expectedGeneration =>
        simp only [Guard.meetsCallback]
        split
        · rfl
        · exact Bool.or_true _
      | cleanup groupId =>
        simp only [Guard.meetsCallback]
        split
        · rfl
        · exact Bool.or_true _
      | rebalance p => rfl
  | _ => rfl

theorem run_free (reached : machine.Run h) : Guarded .free h :=
  reached.mono fun h a _ => free_meets h a

theorem guarded_run (reached : Guarded guard h) : machine.Run h :=
  reached.mono fun _ _ _ => trivial

theorem exec_group (guard : Guard) (actions : List GroupAction) (p : GroupHost → GroupMeta → Bool)
    (ends : (machine.exec guard.meets actions newHost).map (fun h => (h.store.heap[0]?).any (p h)) = some true) :
    ∃ h g, Guarded guard h ∧ h.store.heap[0]? = some g ∧ p h g = true := by
  obtain ⟨h, reached, holds⟩ := Machine.exec_reaches machine _ guard.meets (fun _ _ met => met) actions _ rfl ends
  obtain ⟨g, at_0, is_p⟩ := (Option.any_eq_true _ _).mp holds
  exact ⟨h, g, reached, at_0, is_p⟩

theorem changes_invariant {inv : GroupStore → Prop} (kept : ∀ s s', Change guard s s' → inv s → inv s')
    (changes : Changes guard s s') (before : inv s) : inv s' := by
  induction changes with
  | refl => exact before
  | tail _ change ih => exact kept _ _ change ih

theorem guarded_invariant (inv : GroupStore → Prop) (initial : inv newGroupStore)
    (kept : ∀ s s', Change guard s s' → inv s → inv s') (reached : Guarded guard h) : inv h.store := by
  refine Machine.reached_invariant (fun h => inv h.store) ?_ ?_ reached
  · rintro h rfl
    exact initial
  · intro h a h' before meets moves
    exact changes_invariant kept (step_changes meets moves) before

theorem change_each {inv : GroupMeta → Prop} (new : ∀ groupId protocolName, inv (newGroup groupId protocolName))
    (kept : ∀ g g', GroupChange guard g g' → inv g → inv g') (change : Change guard s s') (each : ∀ g ∈ s.heap, inv g) :
    ∀ g ∈ s'.heap, inv g := by
  intro g member
  rcases change_group change with ⟨groupId, protocolName, heap⟩ | heap | ⟨p, old, g', at_p, heap, changes⟩
  · rw [heap] at member
    rcases List.mem_append.mp member with inside | fresh
    · exact each g inside
    · exact List.mem_singleton.mp fresh ▸ new groupId protocolName
  · exact each g (heap ▸ member)
  · rw [heap] at member
    rcases List.mem_or_eq_of_mem_set member with inside | rfl
    · exact each g inside
    · exact kept old g changes (each old (List.mem_of_getElem? at_p))

theorem guarded_each {inv : GroupMeta → Prop} (new : ∀ groupId protocolName, inv (newGroup groupId protocolName))
    (kept : ∀ g g', GroupChange guard g g' → inv g → inv g') (reached : Guarded guard h) :
    ∀ g ∈ h.store.heap, inv g :=
  guarded_invariant (fun s => ∀ g ∈ s.heap, inv g) nofun (fun _ _ => change_each new kept) reached

theorem guarded_over {base : GroupMeta → Prop} (new : ∀ groupId protocolName, base (newGroup groupId protocolName))
    (kept_base : ∀ g g', GroupChange guard g g' → base g → base g') (inv : GroupStore → Prop)
    (initial : inv newGroupStore) (kept : ∀ s s', Change guard s s' → (∀ g ∈ s.heap, base g) → inv s → inv s')
    (reached : Guarded guard h) : inv h.store := by
  refine (guarded_invariant (fun s => (∀ g ∈ s.heap, base g) ∧ inv s) ⟨nofun, initial⟩ ?_ reached).2
  rintro s s' change ⟨each, before⟩
  exact ⟨change_each new kept_base change each, kept s s' change each before⟩

end KafGo.Group
