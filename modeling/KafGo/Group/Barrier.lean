import KafGo.Group.Consistent
import Mathlib.Data.List.Perm.Subperm

/-!
# The join barrier

The barrier compares how many joins are parked with how many members there are. The two numbers agree only when
every member has joined if no member parks two joins in one rebalance.
-/

namespace KafGo.Group
open Lib

/-- Every member has joined exactly once, one of them leads, and only the leader is told who the members are. -/
structure Delivery.Complete (d : Delivery) : Prop where
  each : (d.results.map Prod.fst).Perm (d.members.map (·.memberId))
  once : (d.results.map Prod.fst).Nodup
  leader : (d.results.map Prod.fst).count d.leaderId = 1
  told : ∀ r ∈ d.results, r.1 = d.leaderId → r.2.members = d.members

/-- No member joins again while its join is parked in a rebalance. -/
def joinsOnce : Guard :=
  { Guard.free with
    park := fun state joins memberId =>
      decide (state ≠ .preparingRebalance) || decide (memberId ∉ joins.map (·.memberId))
    park_nil := fun _ => by
      rw [List.map_nil, decide_eq_true List.not_mem_nil, Bool.or_true] }

def GroupMeta.Single (g : GroupMeta) : Prop :=
  g.state = .preparingRebalance → (g.pendingJoins.map (·.memberId)).Nodup

theorem change_single {g g' : GroupMeta} (change : GroupChange joinsOnce g g') (single : g.Single) : g'.Single := by
  cases change with
  | enrolled | expired | parkedSync => exact single
  | restarted | dropped => exact fun _ => List.nodup_nil
  | closed | died | submitted => exact nofun
  | parked memberId resultCh started known permitted =>
    intro preparing
    have state : g.state = .preparingRebalance := preparing
    have fresh : memberId ∉ g.pendingJoins.map (·.memberId) := by
      simpa only [joinsOnce, state, ne_eq, not_true_eq_false, decide_false, Bool.false_or, decide_eq_true_eq]
        using permitted
    apply nodup_map_concat (single state)
    intro pj parked same
    exact fresh (List.mem_map.mpr ⟨pj, parked, same⟩)

theorem delivery_ids (g : GroupMeta) (p : Nat) (leaderId : String) :
    (g.delivery p leaderId).results.map Prod.fst = g.pendingJoins.map (·.memberId) := List.map_map

theorem delivery_members (g : GroupMeta) (p : Nat) (leaderId : String) :
    (g.delivery p leaderId).members.map (·.memberId) = g.memberIds := List.map_map

theorem closed_complete {g : GroupMeta} {first : PendingJoin} {rest : List PendingJoin} (consistent : g.Consistent)
    (single : g.Single) (preparing : g.state = .preparingRebalance) (joins : g.pendingJoins = first :: rest)
    (all : g.pendingJoins.length = g.members.length) (p : Nat) : (g.delivery p first.memberId).Complete := by
  have once := single preparing
  have inside : first.memberId ∈ g.pendingJoins.map (·.memberId) := by
    rw [joins]
    exact List.mem_cons_self
  refine ⟨?_, ?_, ?_, ?_⟩
  · rw [delivery_ids, delivery_members]
    -- As many different members have joined as there are.
    have known : g.pendingJoins.map (·.memberId) ⊆ g.memberIds := by
      intro id member
      obtain ⟨pj, parked, rfl⟩ := List.mem_map.mp member
      exact consistent.joined preparing pj parked
    apply (List.subperm_of_subset once known).perm_of_length_le
    rw [GroupMeta.memberIds, List.length_map, List.length_map, all]
  · rwa [delivery_ids]
  · rw [delivery_ids]
    exact List.count_eq_one_of_mem once inside
  · intro r member leads
    obtain ⟨pj, _, rfl⟩ := List.mem_map.mp member
    exact if_pos leads

theorem change_complete {s s' : GroupStore} (change : Change joinsOnce s s')
    (groups : ∀ g ∈ s.heap, g.Consistent ∧ g.Single) (complete : ∀ d ∈ s.history.deliveries, d.Complete) :
    ∀ d ∈ s'.history.deliveries, d.Complete := by
  cases change with
  | closed p g first rest at_p preparing joins all =>
    obtain ⟨consistent, single⟩ := groups g (List.mem_of_getElem? at_p)
    exact List.forall_mem_append.mpr ⟨complete, List.forall_mem_singleton.mpr
      (closed_complete consistent single preparing joins all p)⟩
  | _ => exact complete

theorem guarded_complete {h : GroupHost} (reached : Guarded joinsOnce h) :
    ∀ d ∈ h.store.history.deliveries, d.Complete := by
  refine guarded_over ?_ ?_ (fun s => ∀ d ∈ s.history.deliveries, d.Complete) nofun (fun _ _ => change_complete) reached
  · intro groupId protocolName
    exact ⟨newGroup_consistent groupId protocolName, nofun⟩
  · rintro g g' change ⟨consistent, single⟩
    exact ⟨change_consistent change consistent, change_single change single⟩

end KafGo.Group
