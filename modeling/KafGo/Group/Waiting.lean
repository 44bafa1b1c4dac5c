import KafGo.Group.Consistent

/-!
# Parked requests

The handlers of `JoinGroup` and `SyncGroup` block on the channel they get. A channel is parked in its group until
its result is sent. `transitionToPrepareRebalance` and the cleanup of a dead group drop the parked channels of a
group unanswered; in runs where they find none, every channel is parked or has had one result.
-/

namespace KafGo.Group
open Lib

def GroupMeta.joinQueue (g : GroupMeta) : List Nat := g.pendingJoins.map (·.resultCh)

def GroupMeta.syncQueue (g : GroupMeta) : List Nat := g.pendingSyncs.map (·.resultSync)

def parkedIn (queue : GroupMeta → List Nat) (heap : List GroupMeta) (p : Nat) : List Nat :=
  ((heap[p]?).map queue).getD []

section
variable {queue : GroupMeta → List Nat} {heap : List GroupMeta} {p : Nat} {g g' : GroupMeta}

theorem parkedIn_at (at_p : heap[p]? = some g) : parkedIn queue heap p = queue g := by
  unfold parkedIn
  rw [at_p]
  rfl

theorem parkedIn_set (at_p : heap[p]? = some g) (g' : GroupMeta) :
    parkedIn queue (heap.set p g') = Function.update (parkedIn queue heap) p (queue g') := by
  funext q
  by_cases same : q = p
  · subst same
    rw [Function.update_self]
    exact parkedIn_at (List.getElem?_set_self (List.getElem?_eq_some_iff.mp at_p).1)
  · rw [Function.update_of_ne same]
    unfold parkedIn
    rw [List.getElem?_set_ne (Ne.symm same)]

theorem conserved_same {ρ : Type} {chs : List (Mailbox ρ)} (conserved : Conserved chs (parkedIn queue heap))
    (at_p : heap[p]? = some g) (same : queue g' = queue g) : Conserved chs (parkedIn queue (heap.set p g')) := by
  have here : queue g = parkedIn queue heap p := (parkedIn_at at_p).symm
  rw [parkedIn_set at_p, same, here, Function.update_eq_self]
  exact conserved

theorem parkedIn_append (queue : GroupMeta → List Nat) (new : queue g = []) :
    parkedIn queue (heap ++ [g]) = parkedIn queue heap := by
  funext q
  unfold parkedIn
  rcases Nat.lt_trichotomy q heap.length with old | rfl | late
  · rw [List.getElem?_append_left old]
  · rw [List.getElem?_append_right (Nat.le_refl _), Nat.sub_self, List.getElem?_eq_none (Nat.le_refl _)]
    exact new
  · rw [List.getElem?_eq_none (by rw [List.length_append, List.length_singleton]; omega),
      List.getElem?_eq_none (by omega)]

end

def keepsParked : Guard := { Guard.free with discard := fun joins syncs => joins.isEmpty && syncs.isEmpty }

theorem keepsParked_none {joins : List PendingJoin} {syncs : List PendingSync}
    (permitted : keepsParked.discard joins syncs = true) : joins = [] ∧ syncs = [] := by
  obtain ⟨none, none'⟩ := Bool.and_eq_true_iff.mp permitted
  exact ⟨List.isEmpty_iff.mp none, List.isEmpty_iff.mp none'⟩

/-- The map refers to every group in which a request is parked. -/
structure Registered (s : GroupStore) : Prop where
  allocated : ∀ groupId p, s.groups groupId = some p → p < s.heap.length
  held : ∀ p g, s.heap[p]? = some g → s.Holds p ∨ (g.pendingJoins = [] ∧ g.pendingSyncs = [])

section
variable {s s' : GroupStore} {p : Nat} {g g' : GroupMeta}

theorem Registered.set (registered : Registered s) (heap : s'.heap = s.heap.set p g') (groups : s'.groups = s.groups)
    (held : s.Holds p ∨ (g'.pendingJoins = [] ∧ g'.pendingSyncs = [])) : Registered s' := by
  unfold GroupStore.Holds at held
  refine ⟨?_, ?_⟩
  · intro groupId q there
    rw [heap, List.length_set]
    exact registered.allocated groupId q (groups ▸ there)
  · unfold GroupStore.Holds
    rw [heap, groups]
    exact GroupStore.forall_set (fun q g at_q _ => registered.held q g at_q) held

theorem Registered.shrink (registered : Registered s) (at_p : s.heap[p]? = some g) (heap : s'.heap = s.heap.set p g')
    (groups : s'.groups = s.groups) (joins : g.pendingJoins = [] → g'.pendingJoins = [])
    (syncs : g.pendingSyncs = [] → g'.pendingSyncs = []) : Registered s' :=
  registered.set heap groups ((registered.held p g at_p).imp_right fun none => ⟨joins none.1, syncs none.2⟩)

theorem Registered.create (registered : Registered s) {groupId : String} (protocolName : String)
    (missing : s.group groupId = none) : Registered (s.create (newGroup groupId protocolName)) := by
  have unregistered : s.groups groupId = none := by
    cases there : s.groups groupId with
    | none => rfl
    | some p =>
      have inside := List.getElem?_eq_getElem (registered.allocated groupId p there)
      rw [GroupStore.group_some.mpr ⟨there, inside⟩] at missing
      cases missing
  refine ⟨?_, ?_⟩
  · intro groupId' p there
    have there : Function.update s.groups groupId (some s.heap.length) groupId' = some p := there
    show p < (s.heap ++ [_]).length
    rw [List.length_append, List.length_singleton]
    by_cases same : groupId' = groupId
    · subst same
      rw [Function.update_self] at there
      have last := Option.some.inj there
      omega
    · rw [Function.update_of_ne same] at there
      exact Nat.lt_succ_of_lt (registered.allocated groupId' p there)
  · intro p g at_p
    rcases Nat.lt_or_ge p s.heap.length with old | late
    · refine (registered.held p g ?_).imp_left ?_
      · rwa [← List.getElem?_append_left old]
      · rintro ⟨groupId', there⟩
        refine ⟨groupId', (Function.update_of_ne ?_ _ _).trans there⟩
        rintro rfl
        cases unregistered.symm.trans there
    · right
      have new : (s.heap ++ [newGroup groupId protocolName])[p]? = some g := at_p
      rw [List.getElem?_append_right late] at new
      rw [List.mem_singleton.mp (List.mem_of_getElem? new)]
      exact ⟨rfl, rfl⟩

theorem Registered.delete (registered : Registered s) {groupId : String} (found : s.group groupId = some (p, g))
    (none : g.pendingJoins = [] ∧ g.pendingSyncs = []) : Registered (s.delete groupId) := by
  obtain ⟨there, at_p⟩ := GroupStore.group_some.mp found
  refine ⟨?_, ?_⟩
  · intro groupId' q there'
    have there' : Function.update s.groups groupId Option.none groupId' = some q := there'
    by_cases same : groupId' = groupId
    · rw [same, Function.update_self] at there'
      cases there'
    · rw [Function.update_of_ne same] at there'
      exact registered.allocated groupId' q there'
  · intro q other at_q
    by_cases same : q = p
    · subst same
      obtain rfl := Option.some.inj (at_p.symm.trans at_q)
      exact Or.inr none
    · apply (registered.held q other at_q).imp_left
      rintro ⟨groupId', there'⟩
      refine ⟨groupId', (Function.update_of_ne ?_ _ _).trans there'⟩
      rintro rfl
      exact same (Option.some.inj (there'.symm.trans there))

end

theorem change_registered {s s' : GroupStore} (change : Change keepsParked s s') (registered : Registered s) :
    Registered s' := by
  cases change with
  | created groupId protocolName missing => exact registered.create protocolName missing
  | enrolled p g member at_p timed open_g => exact registered.shrink at_p rfl rfl id id
  | restarted p g member timer at_p timed permitted =>
      exact registered.shrink at_p rfl rfl (fun _ => rfl) (fun _ => rfl)
  | parked p g memberId at_p held started known permitted => exact registered.set rfl rfl (Or.inl held)
  | closed p g first rest at_p preparing joins all => exact registered.shrink at_p rfl rfl (fun _ => rfl) id
  | died p g memberId at_p last => exact registered.shrink at_p rfl rfl id id
  | dropped p g memberId timer at_p permitted => exact registered.shrink at_p rfl rfl (fun _ => rfl) (fun _ => rfl)
  | expired p g at_p permitted => exact registered.shrink at_p rfl rfl id id
  | submitted p g a at_p completing permitted => exact registered.shrink at_p rfl rfl id (fun _ => rfl)
  | replied p g memberId a at_p completing known => exact ⟨registered.allocated, registered.held⟩
  | parkedSync p g memberId at_p held completing unknown => exact registered.set rfl rfl (Or.inl held)
  | deleted groupId p g found dead permitted => exact registered.delete found (keepsParked_none permitted)

/-! ### Results -/

/-- No request is lost. -/
structure Waiting (s : GroupStore) : Prop where
  joins : Conserved s.joinChs (parkedIn GroupMeta.joinQueue s.heap)
  syncs : Conserved s.syncChs (parkedIn GroupMeta.syncQueue s.heap)

section
variable {s : GroupStore} {p : Nat} {g g' : GroupMeta}

theorem Waiting.write (waiting : Waiting s) (at_p : s.heap[p]? = some g) (joins : g'.pendingJoins = g.pendingJoins)
    (syncs : g'.pendingSyncs = g.pendingSyncs) : Waiting (s.write p g') where
  joins := conserved_same waiting.joins at_p (congrArg (List.map _) joins)
  syncs := conserved_same waiting.syncs at_p (congrArg (List.map _) syncs)

theorem Waiting.parkJoin (waiting : Waiting s) (at_p : s.heap[p]? = some g) (memberId : String) :
    Waiting ((s.openJoin p).write p (g.parkJoin memberId s.joinChs.length)) where
  joins := by
    show Conserved (s.joinChs ++ [⟨p, []⟩]) (parkedIn GroupMeta.joinQueue (s.heap.set p _))
    have parks := waiting.joins.park p
    rw [parkedIn_at at_p] at parks
    rw [parkedIn_set at_p]
    simpa only [GroupMeta.joinQueue, GroupMeta.parkJoin, List.map_append, List.map_singleton] using parks
  syncs := conserved_same waiting.syncs at_p rfl

theorem Waiting.parkSync (waiting : Waiting s) (at_p : s.heap[p]? = some g) (memberId : String) (requested : Int) :
    Waiting (s.parkSync p g memberId requested) where
  joins := conserved_same waiting.joins at_p rfl
  syncs := by
    show Conserved (s.syncChs ++ [⟨p, []⟩]) (parkedIn GroupMeta.syncQueue (s.heap.set p _))
    have parks := waiting.syncs.park p
    rw [parkedIn_at at_p] at parks
    rw [parkedIn_set at_p]
    simpa only [GroupMeta.syncQueue, GroupMeta.parkSync, List.map_append, List.map_singleton] using parks

theorem Waiting.deliver (waiting : Waiting s) (at_p : s.heap[p]? = some g) (leaderId : String) :
    Waiting ((s.deliver p g leaderId).write p (g.closed leaderId)) where
  joins := by
    show Conserved (sendAll s.joinChs _) (parkedIn GroupMeta.joinQueue (s.heap.set p _))
    rw [parkedIn_set at_p]
    apply waiting.joins.answer
    rw [List.map_map, parkedIn_at at_p]
    rfl
  syncs := conserved_same waiting.syncs at_p rfl

theorem Waiting.submit (waiting : Waiting s) (at_p : s.heap[p]? = some g) (memberId : String) (requested : Int)
    (a : Assignments) : Waiting (s.submit p g memberId requested a) where
  joins := conserved_same waiting.joins at_p rfl
  syncs := by
    show Conserved (sendAll (s.syncChs ++ _) _) (parkedIn GroupMeta.syncQueue (s.heap.set p _))
    rw [parkedIn_set at_p]
    apply (waiting.syncs.reply p (a.result memberId)).answer
    rw [List.map_map, parkedIn_at at_p]
    rfl

end

theorem change_waiting {s s' : GroupStore} (change : Change keepsParked s s') (waiting : Waiting s) : Waiting s' := by
  cases change with
  | created groupId protocolName missing =>
    unfold GroupStore.create
    refine ⟨?_, ?_⟩
    · rw [parkedIn_append GroupMeta.joinQueue rfl]
      exact waiting.joins
    · rw [parkedIn_append GroupMeta.syncQueue rfl]
      exact waiting.syncs
  | enrolled p g member at_p timed open_g => exact waiting.write at_p rfl rfl
  | restarted p g member timer at_p timed permitted =>
    obtain ⟨none, none'⟩ := keepsParked_none permitted
    exact waiting.write at_p none.symm none'.symm
  | parked p g memberId at_p held started known permitted => exact waiting.parkJoin at_p memberId
  | closed p g first rest at_p preparing joins all => exact waiting.deliver at_p first.memberId
  | died p g memberId at_p last => exact waiting.write at_p rfl rfl
  | dropped p g memberId timer at_p permitted =>
    obtain ⟨none, none'⟩ := keepsParked_none permitted
    exact waiting.write at_p none.symm none'.symm
  | expired p g at_p permitted => exact waiting.write at_p rfl rfl
  | submitted p g a at_p completing permitted => exact waiting.submit at_p g.leaderId g.generationId a
  | replied p g memberId a at_p completing known => exact ⟨waiting.joins, waiting.syncs.reply p _⟩
  | parkedSync p g memberId at_p held completing unknown => exact waiting.parkSync at_p memberId g.generationId
  | deleted groupId p g found dead permitted => exact ⟨waiting.joins, waiting.syncs⟩

theorem newGroupStore_waiting : Waiting newGroupStore where
  joins := ⟨fun _ => List.nodup_nil, fun _ _ => nofun, fun _ _ => nofun⟩
  syncs := ⟨fun _ => List.nodup_nil, fun _ _ => nofun, fun _ _ => nofun⟩

theorem parked_registered {s : GroupStore} (registered : Registered s) {queue : GroupMeta → List Nat}
    (queued : ∀ g : GroupMeta, g.pendingJoins = [] ∧ g.pendingSyncs = [] → queue g = []) {p k : Nat}
    (member : k ∈ parkedIn queue s.heap p) : ∃ groupId g, s.group groupId = some (p, g) ∧ k ∈ queue g := by
  cases at_p : s.heap[p]? with
  | none =>
    unfold parkedIn at member
    rw [at_p] at member
    cases member
  | some g =>
    rw [parkedIn_at at_p] at member
    rcases registered.held p g at_p with ⟨groupId, there⟩ | none
    · exact ⟨groupId, g, GroupStore.group_some.mpr ⟨there, at_p⟩, member⟩
    · rw [queued g none] at member
      cases member

def Answered (s : GroupStore) {ρ : Type} (queue : GroupMeta → List Nat) (chs : List (Mailbox ρ)) : Prop :=
  ∀ k box, chs[k]? = some box → box.sent.length = 1 ∨
    (box.sent = [] ∧ ∃ groupId g, s.group groupId = some (box.owner, g) ∧ k ∈ queue g)

theorem conserved_answered {s : GroupStore} (registered : Registered s) {ρ : Type} {queue : GroupMeta → List Nat}
    (queued : ∀ g : GroupMeta, g.pendingJoins = [] ∧ g.pendingSyncs = [] → queue g = []) {chs : List (Mailbox ρ)}
    (conserved : Conserved chs (parkedIn queue s.heap)) : Answered s queue chs := by
  intro k box found
  apply (conserved.settled k box found).imp_right
  intro parked
  have empty := conserved.empty box.owner k parked
  rw [found] at empty
  exact ⟨congrArg Mailbox.sent (Option.some.inj empty), parked_registered registered queued parked⟩

/-- In every run in which no parked request is thrown away, every channel that `JoinGroup` or `SyncGroup` returned has
had exactly one result, or is empty and registered in a group of the map. -/
theorem requests_answered (h : GroupHost) (reached : Guarded keepsParked h) :
    Answered h.store GroupMeta.joinQueue h.store.joinChs ∧ Answered h.store GroupMeta.syncQueue h.store.syncChs := by
  have registered := guarded_invariant Registered ⟨nofun, nofun⟩ (fun _ _ => change_registered) reached
  have waiting := guarded_invariant Waiting newGroupStore_waiting (fun _ _ => change_waiting) reached
  constructor
  · apply conserved_answered registered _ waiting.joins
    intro g none
    rw [GroupMeta.joinQueue, none.1, List.map_nil]
  · apply conserved_answered registered _ waiting.syncs
    intro g none
    rw [GroupMeta.syncQueue, none.2, List.map_nil]

theorem requests_answered_two : ∃ h, Guarded keepsParked h ∧ h.store.joinChs.length = 3 ∧ h.store.syncChs.length = 2 ∧
    Answered h.store GroupMeta.joinQueue h.store.joinChs ∧ Answered h.store GroupMeta.syncQueue h.store.syncChs := by
  obtain ⟨h, reached, ends⟩ := Machine.exec_reaches machine _ keepsParked.meets (fun _ _ met => met)
    [.joinGroup (joinOf "a"), .syncGroup ⟨"g", "a", 1, some oneEach⟩, .joinGroup (joinOf "b"), .joinGroup (joinOf "a"),
      .syncGroup ⟨"g", "a", 2, none⟩]
    (fun h => decide (h.store.joinChs.length = 3 ∧ h.store.syncChs.length = 2)) rfl (by decide +kernel)
  obtain ⟨joins, syncs⟩ := of_decide_eq_true ends
  exact ⟨h, reached, joins, syncs, requests_answered h reached⟩

/-- The second consumer waits for the first one to join again, which leaves instead. -/
theorem request_discarded : ∃ h g, machine.Run h ∧ h.store.heap[0]? = some g ∧ g.memberIds = ["b"] ∧
    g.pendingJoins.length = 0 ∧ h.store.joinChs[1]? = some ⟨0, []⟩ ∧
    ¬ Answered h.store GroupMeta.joinQueue h.store.joinChs := by
  have schedule := exec_group .free
    [.joinGroup (joinOf "a"), .syncGroup ⟨"g", "a", 1, some oneEach⟩, .joinGroup (joinOf "b"), .leaveGroup "g" "a"]
    (fun h g => decide (g.memberIds = ["b"] ∧ g.pendingJoins.length = 0 ∧ h.store.joinChs[1]? = some ⟨0, []⟩))
    (by decide +kernel)
  obtain ⟨h, g, reached, at_0, ends⟩ := schedule
  obtain ⟨members, none, opened⟩ := of_decide_eq_true ends
  refine ⟨h, g, guarded_run reached, at_0, members, none, opened, ?_⟩
  intro answered
  rcases answered 1 _ opened with sent | ⟨_, groupId, g', found, parked⟩
  · cases sent
  · obtain rfl := Option.some.inj ((GroupStore.group_some.mp found).2.symm.trans at_0)
    rw [GroupMeta.joinQueue, List.length_eq_zero_iff.mp none] at parked
    cases parked

end KafGo.Group
