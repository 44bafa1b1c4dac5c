import KafGo.Group.Consistent

/-!
# Rounds

A round of a group is what happens between two starts of a rebalance. In each round the barrier closes at most
once and the leader's assignment is accepted at most once, after the barrier has closed; every sync result of
the round is read from it.
-/

namespace KafGo.Group
open Lib

structure Recorded (history : History) (p : Nat) (g : GroupMeta) : Prop where
  delivered : ∀ d ∈ history.deliveries, d.group = p → d.round ≤ g.rebalances ∧
    (d.round = g.rebalances → g.state ≠ .preparingRebalance)
  led : g.state = .completingRebalance → ∃ d ∈ history.deliveries, d.group = p ∧ d.round = g.rebalances ∧
    d.leaderId = g.leaderId
  submitted : ∀ b ∈ history.submissions, b.group = p → b.round ≤ g.rebalances ∧
    (b.round = g.rebalances → g.state ≠ .preparingRebalance ∧ g.state ≠ .completingRebalance)

structure Orderly (heap : List GroupMeta) (history : History) : Prop where
  recorded : ∀ p g, heap[p]? = some g → Recorded history p g
  allocated : (∀ d ∈ history.deliveries, d.group < heap.length) ∧ ∀ b ∈ history.submissions, b.group < heap.length
  numbered : (∀ d ∈ history.deliveries, d.round < 2 ^ 31 → d.generationId = d.round) ∧
    (∀ b ∈ history.submissions, b.round < 2 ^ 31 → b.generationId = b.round)
  closedOnce : (history.deliveries.map fun d => (d.group, d.round)).Nodup
  submittedOnce : (history.submissions.map fun b => (b.group, b.round)).Nodup
  backed : ∀ b ∈ history.submissions, ∃ d ∈ history.deliveries, d.group = b.group ∧ d.round = b.round ∧
    d.leaderId = b.memberId
  answered : ∀ r ∈ history.answers, ∃ b ∈ history.submissions, b.group = r.group ∧ b.generationId = r.generationId ∧
    r.result = b.assignments.result r.memberId

/-- A change of a group that leaves the history alone: the round goes on, the group dies, or a new round
starts. -/
inductive Quiet (g g' : GroupMeta) : Prop where
  | same (round : g'.rebalances = g.rebalances) (state : g'.state = g.state) (leader : g'.leaderId = g.leaderId)
  | died (round : g'.rebalances = g.rebalances) (state : g'.state = .dead)
  | started (round : g'.rebalances = g.rebalances + 1) (state : g'.state = .preparingRebalance)

variable {history : History} {p : Nat} {g g' : GroupMeta} {heap : List GroupMeta} {guard : Guard} {h : GroupHost}

theorem quiet_recorded (quiet : Quiet g g') (recorded : Recorded history p g) : Recorded history p g' := by
  obtain ⟨delivered, led, submitted⟩ := recorded
  cases quiet with
  | same round state leader =>
    rw [← round, ← state] at delivered submitted
    rw [← round, ← state, ← leader] at led
    exact ⟨delivered, led, submitted⟩
  | died round state =>
    refine ⟨?_, ?_, ?_⟩
    · intro d member own
      rw [round, state]
      exact ⟨(delivered d member own).1, fun _ => nofun⟩
    · rw [state]
      exact nofun
    · intro b member own
      rw [round, state]
      exact ⟨(submitted b member own).1, fun _ => ⟨nofun, nofun⟩⟩
  | started round state =>
    refine ⟨?_, ?_, ?_⟩
    · intro d member own
      have bound := (delivered d member own).1
      exact ⟨by omega, fun now => by omega⟩
    · rw [state]
      exact nofun
    · intro b member own
      have bound := (submitted b member own).1
      exact ⟨by omega, fun now => by omega⟩

namespace History

variable {history : History}

theorem forall_deliver {P : Delivery → Prop} {d : Delivery} (old : ∀ d ∈ history.deliveries, P d) (new : P d) :
    ∀ d' ∈ (history.deliver d).deliveries, P d' :=
  List.forall_mem_append.mpr ⟨old, List.forall_mem_singleton.mpr new⟩

theorem forall_submit {P : Submission → Prop} {b : Submission} (old : ∀ b ∈ history.submissions, P b) (new : P b) :
    ∀ b' ∈ (history.submit b).submissions, P b' :=
  List.forall_mem_append.mpr ⟨old, List.forall_mem_singleton.mpr new⟩

end History

theorem quiet_orderly (at_p : heap[p]? = some g) (quiet : Quiet g g') (orderly : Orderly heap history) :
    Orderly (heap.set p g') history where
  recorded := GroupStore.forall_set (fun q g at_q _ => orderly.recorded q g at_q)
    (quiet_recorded quiet (orderly.recorded p g at_p))
  allocated := by
    rw [List.length_set]
    exact orderly.allocated
  numbered := orderly.numbered
  closedOnce := orderly.closedOnce
  submittedOnce := orderly.submittedOnce
  backed := orderly.backed
  answered := orderly.answered

theorem created_orderly (groupId protocolName : String) (orderly : Orderly heap history) :
    Orderly (heap ++ [newGroup groupId protocolName]) history := by
  obtain ⟨recorded, allocated, numbered, closedOnce, submittedOnce, backed, answered⟩ := orderly
  refine ⟨?_, ⟨?_, ?_⟩, numbered, closedOnce, submittedOnce, backed, answered⟩
  · intro p g at_p
    rcases Nat.lt_or_ge p heap.length with old | late
    · rw [List.getElem?_append_left old] at at_p
      exact recorded p g at_p
    · have fresh : g = newGroup groupId protocolName := by
        rw [List.getElem?_append_right late] at at_p
        exact List.mem_singleton.mp (List.mem_of_getElem? at_p)
      subst fresh
      refine ⟨?_, nofun, ?_⟩
      · intro d member own
        have bound := allocated.1 d member
        omega
      · intro b member own
        have bound := allocated.2 b member
        omega
  · intro d member
    rw [List.length_append]
    exact Nat.lt_add_right _ (allocated.1 d member)
  · intro b member
    rw [List.length_append]
    exact Nat.lt_add_right _ (allocated.2 b member)

theorem closed_orderly (leaderId : String) (at_p : heap[p]? = some g) (preparing : g.state = .preparingRebalance)
    (generation : g.rebalances < 2 ^ 31 → g.generationId = g.rebalances) (orderly : Orderly heap history) :
    Orderly (heap.set p (g.closed leaderId)) (history.deliver (g.delivery p leaderId)) := by
  obtain ⟨recorded, allocated, numbered, closedOnce, submittedOnce, backed, answered⟩ := orderly
  have here := recorded p g at_p
  have later : ∀ {P : Delivery → Prop}, (∃ d ∈ history.deliveries, P d) →
      ∃ d ∈ (history.deliver (g.delivery p leaderId)).deliveries, P d := by
    rintro P ⟨d, member, holds⟩
    exact ⟨d, List.mem_append_left _ member, holds⟩
  refine ⟨GroupStore.forall_set ?_ ⟨?_, ?_, ?_⟩, ⟨?_, ?_⟩,
    ⟨History.forall_deliver numbered.1 generation, numbered.2⟩, ?_,
    submittedOnce, fun b member => later (backed b member), answered⟩
  · intro q other at_q apart
    obtain ⟨delivered, led, submitted⟩ := recorded q other at_q
    refine ⟨?_, fun state => later (led state), submitted⟩
    exact History.forall_deliver delivered fun own => absurd own.symm apart
  · apply History.forall_deliver
    · intro d member own
      exact ⟨(here.delivered d member own).1, fun _ => nofun⟩
    · intro _
      exact ⟨Nat.le_refl _, fun _ => nofun⟩
  · intro _
    exact ⟨g.delivery p leaderId, List.mem_append_right _ (List.mem_singleton_self _), rfl, rfl, rfl⟩
  · intro b member own
    obtain ⟨bound, now⟩ := here.submitted b member own
    exact ⟨bound, fun same => absurd preparing (now same).1⟩
  · rw [List.length_set]
    exact History.forall_deliver allocated.1 (List.getElem?_eq_some_iff.mp at_p).1
  · rw [List.length_set]
    exact allocated.2
  · refine nodup_map_concat closedOnce ?_
    intro d member same
    obtain ⟨own, now⟩ := Prod.mk.inj same
    exact (here.delivered d member own).2 now preparing

/-- The leader's assignment is the first one of the round, and every answer is read from it. -/
theorem submitted_orderly {a : Assignments} (at_p : heap[p]? = some g) (completing : g.state = .completingRebalance)
    (generation : g.rebalances < 2 ^ 31 → g.generationId = g.rebalances) {requests : List (String × Int)}
    (requested : ∀ q ∈ requests, q.2 = g.generationId) (orderly : Orderly heap history) :
    Orderly (heap.set p (g.assigned a))
      ((history.submit ⟨p, g.rebalances, g.generationId, g.leaderId, a⟩).answer p g a requests) := by
  obtain ⟨recorded, allocated, numbered, closedOnce, submittedOnce, backed, answered⟩ := orderly
  have here := recorded p g at_p
  refine ⟨GroupStore.forall_set ?_ ⟨?_, nofun, ?_⟩, ⟨?_, ?_⟩,
    ⟨numbered.1, History.forall_submit numbered.2 generation⟩, closedOnce, ?_,
    History.forall_submit backed (here.led completing), ?_⟩
  · intro q other at_q apart
    obtain ⟨delivered, led, submitted⟩ := recorded q other at_q
    exact ⟨delivered, led, History.forall_submit submitted fun own => absurd own.symm apart⟩
  · intro d member own
    exact ⟨(here.delivered d member own).1, fun _ => nofun⟩
  · apply History.forall_submit
    · intro b member own
      exact ⟨(here.submitted b member own).1, fun _ => ⟨nofun, nofun⟩⟩
    · intro _
      exact ⟨Nat.le_refl _, fun _ => ⟨nofun, nofun⟩⟩
  · rw [List.length_set]
    exact allocated.1
  · rw [List.length_set]
    exact History.forall_submit allocated.2 (List.getElem?_eq_some_iff.mp at_p).1
  · refine nodup_map_concat submittedOnce ?_
    intro b member same
    obtain ⟨own, now⟩ := Prod.mk.inj same
    exact ((here.submitted b member own).2 now).2 completing
  · intro r member
    rcases List.mem_append.mp member with old | new
    · obtain ⟨b, inside, source⟩ := answered r old
      exact ⟨b, List.mem_append_left _ inside, source⟩
    · obtain ⟨q, asked, rfl⟩ := List.mem_map.mp new
      exact ⟨_, List.mem_append_right _ (List.mem_singleton_self _), rfl, (requested q asked).symm, rfl⟩

theorem change_orderly {s s' : GroupStore} (change : Change guard s s') (consistent : ∀ g ∈ s.heap, g.Consistent)
    (orderly : Orderly s.heap s.history) : Orderly s'.heap s'.history := by
  cases change with
  | created groupId protocolName missing => exact created_orderly groupId protocolName orderly
  | enrolled p g member at_p timed open_g => exact quiet_orderly at_p (.same rfl rfl rfl) orderly
  | restarted p g member timer at_p timed permitted => exact quiet_orderly at_p (.started rfl rfl) orderly
  | parked p g memberId at_p held started known permitted => exact quiet_orderly at_p (.same rfl rfl rfl) orderly
  | closed p g first rest at_p preparing joins all =>
    exact closed_orderly _ at_p preparing (consistent g (List.mem_of_getElem? at_p)).generation orderly
  | died p g memberId at_p last => exact quiet_orderly at_p (.died rfl rfl) orderly
  | dropped p g memberId timer at_p permitted => exact quiet_orderly at_p (.started rfl rfl) orderly
  | expired p g at_p permitted => exact quiet_orderly at_p (.same rfl rfl rfl) orderly
  | submitted p g a at_p completing permitted =>
    have here := consistent g (List.mem_of_getElem? at_p)
    refine submitted_orderly at_p completing here.generation (List.forall_mem_cons.mpr ⟨rfl, ?_⟩) orderly
    intro q asked
    obtain ⟨ps, parked, rfl⟩ := List.mem_map.mp asked
    exact here.requested ps parked
  | replied p g memberId a at_p completing known =>
    -- The assignment is cleared when a rebalance starts and set when the state becomes `Stable`.
    have unknown := (consistent g (List.mem_of_getElem? at_p)).unassigned (Or.inr completing)
    rw [known] at unknown
    cases unknown
  | parkedSync p g memberId at_p held completing unknown => exact quiet_orderly at_p (.same rfl rfl rfl) orderly
  | deleted groupId p g found dead permitted => exact orderly

theorem guarded_orderly (reached : Guarded guard h) :
    Orderly h.store.heap h.store.history := by
  refine guarded_over newGroup_consistent (fun _ _ => change_consistent) (fun s => Orderly s.heap s.history) ?_
    (fun _ _ => change_orderly) reached
  exact ⟨nofun, ⟨nofun, nofun⟩, ⟨nofun, nofun⟩, List.nodup_nil, List.nodup_nil, nofun, nofun⟩

/-! ### Generations -/

theorem change_rebalances (change : GroupChange guard g g') :
    g.rebalances ≤ g'.rebalances := by
  cases change with
  | restarted => exact Nat.le_succ g.rebalances
  | dropped => exact Nat.le_succ g.rebalances
  | _ => exact Nat.le_refl g.rebalances

theorem changes_rebalances {s s' : GroupStore} (changes : Changes guard s s') (at_p : s.heap[p]? = some g) :
    ∃ g', s'.heap[p]? = some g' ∧ g.rebalances ≤ g'.rebalances := by
  induction changes with
  | refl => exact ⟨g, at_p, Nat.le_refl _⟩
  | tail _ change ih =>
    obtain ⟨g₁, at_p, upto⟩ := ih
    rcases change_group change with ⟨groupId, protocolName, heap⟩ | heap | ⟨q, old, new, at_q, heap, changed⟩
    · refine ⟨g₁, ?_, upto⟩
      rw [heap, List.getElem?_append_left (List.getElem?_eq_some_iff.mp at_p).1, at_p]
    · exact ⟨g₁, heap ▸ at_p, upto⟩
    · by_cases same : q = p
      · subst same
        obtain rfl := Option.some.inj (at_p.symm.trans at_q)
        refine ⟨new, ?_, upto.trans (change_rebalances changed)⟩
        rw [heap, List.getElem?_set_self (List.getElem?_eq_some_iff.mp at_p).1]
      · refine ⟨g₁, ?_, upto⟩
        rw [heap, List.getElem?_set_ne same, at_p]

theorem leads_rebalances {h' : GroupHost} (leads : machine.Leads h h') (at_p : h.store.heap[p]? = some g) :
    ∃ g', h'.store.heap[p]? = some g' ∧ g.rebalances ≤ g'.rebalances := by
  induction leads with
  | refl => exact ⟨g, at_p, Nat.le_refl _⟩
  | tail _ moves ih =>
    obtain ⟨g₁, at_p, upto⟩ := ih
    obtain ⟨a, moves⟩ := moves
    obtain ⟨g', at_p', more⟩ := changes_rebalances (step_changes (free_meets _ a) moves) at_p
    exact ⟨g', at_p', upto.trans more⟩

theorem leads_run {h' : GroupHost} (leads : machine.Leads h h') (reached : machine.Run h) : machine.Run h' := by
  induction leads with
  | refl => exact reached
  | tail _ moves ih =>
    obtain ⟨a, moves⟩ := moves
    exact .act ih trivial moves

end KafGo.Group
