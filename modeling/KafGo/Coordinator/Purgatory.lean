import KafGo.Lib.InPlace

/-!
Parked produce requests. A waiter is a heap cell with the offset it waits for and a `Done` channel of
capacity one; the purgatory keeps pointers to the waiters that are not resolved. A send on a closed
channel and a second close are panics.
-/

namespace KafGo.Coordinator
open Lib

def errNotEnoughReplicasAfterAppend : Int := 20

/-- What is sent on `Done`: `nil`, or an error with its code. -/
inductive Outcome where
  | completed
  | failed (code : Int)
  deriving DecidableEq, Repr

/-- All values sent so far, and how often the channel was closed. Its one receiver takes at most one
value, so what has been received is not recorded. -/
structure DoneChan where
  sent : List Outcome
  closes : Nat
  deriving DecidableEq, Repr

namespace DoneChan

def empty : DoneChan := ⟨[], 0⟩

/-- `select { case ch <- v: default: }` and `close(ch)`; `none` is a panic. -/
def resolve (ch : DoneChan) (v : Outcome) : Option DoneChan :=
  if ch.closes > 0 then none
  else some ⟨if ch.sent = [] then [v] else ch.sent, ch.closes + 1⟩

/-- `<-ch`: `none` blocks, and a closed channel without a value yields `nil`. -/
def receive (ch : DoneChan) : Option Outcome :=
  match ch.sent with
  | v :: _ => some v
  | [] => if ch.closes > 0 then some .completed else none

end DoneChan

structure PartitionAppendWaiter where
  requiredOffset : Int
  done : DoneChan
  deriving DecidableEq, Repr

structure PartitionPurgatory where
  heap : List PartitionAppendWaiter
  waiters : List Nat

namespace PartitionPurgatory

def empty : PartitionPurgatory := ⟨[], []⟩

def fresh (p : PartitionPurgatory) : Nat := p.heap.length

def add (p : PartitionPurgatory) (requiredOffset : Int) : PartitionPurgatory where
  heap := p.heap ++ [⟨requiredOffset, .empty⟩]
  waiters := p.waiters ++ [p.fresh]

def resolveAt (heap : List PartitionAppendWaiter) (w : Nat) (v : Outcome) : Option (List PartitionAppendWaiter) :=
  match heap[w]? with
  | none => none
  | some cell => (cell.done.resolve v).map fun ch => heap.set w { cell with done := ch }

def required (heap : List PartitionAppendWaiter) (w : Nat) : Int := (heap[w]?.map (·.requiredOffset)).getD 0

/-- The heap is `none` once a channel operation has panicked. -/
def completeUpTo (p : PartitionPurgatory) (hwm : Int) : Option PartitionPurgatory :=
  let (remaining, heap) := inPlaceFilter (fun w => !decide (required p.heap w < hwm))
    (fun heap w => heap.bind fun heap => resolveAt heap w .completed) p.waiters (some p.heap)
  heap.map fun heap => ⟨heap, remaining⟩

def failAll (p : PartitionPurgatory) (err : Int) : Option PartitionPurgatory :=
  let heap := p.waiters.foldl (fun heap w => heap.bind fun heap => resolveAt heap w (.failed err)) (some p.heap)
  heap.map fun heap => ⟨heap, []⟩

/-- A cell that was never resolved, or resolved once. -/
def Settled (ch : DoneChan) : Prop := ch = .empty ∨ ∃ v, ch = ⟨[v], 1⟩

/-- Pointers are distinct and lead exactly to the cells that are not resolved yet. -/
structure WellFormed (p : PartitionPurgatory) : Prop where
  distinct : p.waiters.Nodup
  settled : ∀ (w : Nat) (cell : PartitionAppendWaiter), p.heap[w]? = some cell → Settled cell.done
  parked : ∀ w, w ∈ p.waiters ↔ ∃ cell, p.heap[w]? = some cell ∧ cell.done = .empty

theorem WellFormed.unset {p : PartitionPurgatory} (wf : p.WellFormed) {w : Nat} {cell : PartitionAppendWaiter}
    (member : w ∈ p.waiters) (found : p.heap[w]? = some cell) : cell.done = .empty := by
  obtain ⟨cell', found', unset⟩ := (wf.parked w).mp member
  obtain rfl := Option.some.inj (found.symm.trans found')
  exact unset

theorem empty_wellFormed : empty.WellFormed where
  distinct := List.nodup_nil
  settled := by intro w cell found; simp [empty] at found
  parked := by intro w; simp [empty]

theorem add_wellFormed {p : PartitionPurgatory} (wf : p.WellFormed) (off : Int) : (p.add off).WellFormed where
  distinct := by
    have new : p.fresh ∉ p.waiters := by
      intro member
      obtain ⟨cell, found, _⟩ := (wf.parked _).mp member
      rw [fresh, List.getElem?_eq_none (Nat.le_refl _)] at found
      cases found
    simp only [add]
    rw [List.nodup_append]
    refine ⟨wf.distinct, by simp, ?_⟩
    intro w member other last
    rw [List.mem_singleton.mp last]
    rintro rfl
    exact new member
  settled := by
    intro w cell found
    simp only [add] at found
    rcases Nat.lt_or_ge w p.heap.length with old | fresh
    · rw [List.getElem?_append_left old] at found
      exact wf.settled w cell found
    · rw [List.getElem?_append_right fresh] at found
      rw [List.mem_singleton.mp (List.mem_of_getElem? found)]
      exact Or.inl rfl
  parked := by
    intro w
    simp only [add, List.mem_append, List.mem_singleton]
    rcases Nat.lt_trichotomy w p.heap.length with old | here | beyond
    · rw [List.getElem?_append_left old, ← wf.parked]
      exact ⟨fun member => member.resolve_right (by simp only [fresh]; omega), Or.inl⟩
    · subst here
      simp [fresh]
    · rw [List.getElem?_eq_none (by simp; omega)]
      constructor
      · rintro (member | same)
        · obtain ⟨cell, found, _⟩ := (wf.parked _).mp member
          rw [List.getElem?_eq_none (by omega)] at found
          cases found
        · simp only [fresh] at same
          omega
      · rintro ⟨cell, found, _⟩
        cases found

theorem resolve_each (v : Outcome) (ws : List Nat) :
    ∀ (heap : List PartitionAppendWaiter), ws.Nodup →
      (∀ w ∈ ws, ∃ cell, heap[w]? = some cell ∧ cell.done = .empty) →
      ∃ heap', ws.foldl (fun heap w => heap.bind fun heap => resolveAt heap w v) (some heap) = some heap' ∧
        ∀ w : Nat, heap'[w]? = heap[w]?.map fun cell => if w ∈ ws then { cell with done := ⟨[v], 1⟩ } else cell := by
  induction ws with
  | nil =>
    intro heap _ _
    exact ⟨heap, rfl, fun w => by simp⟩
  | cons first ws ih =>
    intro heap distinct opened
    obtain ⟨outside, distinct⟩ := List.nodup_cons.mp distinct
    obtain ⟨cell, found, unset⟩ := opened first List.mem_cons_self
    have resolved : resolveAt heap first v = some (heap.set first { cell with done := ⟨[v], 1⟩ }) := by
      simp only [resolveAt, found, unset, DoneChan.resolve, DoneChan.empty]
      rfl
    have others : ∀ w, w ≠ first → (heap.set first { cell with done := ⟨[v], 1⟩ })[w]? = heap[w]? :=
      fun w apart => List.getElem?_set_ne (Ne.symm apart)
    obtain ⟨heap', folded, cells⟩ := ih (heap.set first { cell with done := ⟨[v], 1⟩ }) distinct (by
      intro w member
      rw [others w (fun same => outside (same ▸ member))]
      exact opened w (List.mem_cons_of_mem _ member))
    refine ⟨heap', by rw [List.foldl_cons, Option.bind_some, resolved]; exact folded, fun w => ?_⟩
    rw [cells w]
    by_cases same : w = first
    · subst same
      rw [List.getElem?_set_self (List.getElem?_eq_some_iff.mp found).1, found]
      simp [outside]
    · rw [others w same]
      simp [same]

/-- The purgatory after the waiters of `gone` are resolved with `v`. -/
structure Resolved (p p' : PartitionPurgatory) (gone : Nat → Prop) [DecidablePred gone] (v : Outcome) : Prop where
  waiters : p'.waiters = p.waiters.filter (fun w => !decide (gone w))
  heap : ∀ w : Nat, p'.heap[w]? = p.heap[w]?.map fun cell =>
    if w ∈ p.waiters ∧ gone w then { cell with done := ⟨[v], 1⟩ } else cell

theorem resolved_wellFormed {p p' : PartitionPurgatory} {gone : Nat → Prop} [DecidablePred gone] {v : Outcome}
    (wf : p.WellFormed) (resolved : Resolved p p' gone v) : p'.WellFormed where
  distinct := by
    rw [resolved.waiters]
    exact wf.distinct.filter _
  settled := by
    intro w cell found
    rw [resolved.heap] at found
    obtain ⟨old, before, rfl⟩ := Option.map_eq_some_iff.mp found
    split
    · exact Or.inr ⟨v, rfl⟩
    · exact wf.settled w old before
  parked := by
    intro w
    rw [resolved.waiters, resolved.heap, List.mem_filter]
    constructor
    · rintro ⟨member, stays⟩
      obtain ⟨cell, found, unset⟩ := (wf.parked w).mp member
      refine ⟨cell, ?_, unset⟩
      rw [found, Option.map_some, if_neg (by rintro ⟨_, leaves⟩; simp [leaves] at stays)]
    · rintro ⟨cell, found, unset⟩
      obtain ⟨old, before, rfl⟩ := Option.map_eq_some_iff.mp found
      by_cases leaves : w ∈ p.waiters ∧ gone w
      · rw [if_pos leaves] at unset
        cases unset
      · rw [if_neg leaves] at unset
        have member := (wf.parked w).mpr ⟨old, before, unset⟩
        exact ⟨member, by simpa using fun gone_w => leaves ⟨member, gone_w⟩⟩

theorem completeUpTo_resolved {p : PartitionPurgatory} (wf : p.WellFormed) (hwm : Int) :
    ∃ p', p.completeUpTo hwm = some p' ∧ Resolved p p' (fun w => required p.heap w < hwm) .completed := by
  obtain ⟨heap', folded, cells⟩ := resolve_each .completed
    (p.waiters.filter (fun w => !(!decide (required p.heap w < hwm)))) p.heap (wf.distinct.filter _)
    (fun w member => (wf.parked w).mp (List.mem_filter.mp member).1)
  refine ⟨⟨heap', p.waiters.filter (fun w => !decide (required p.heap w < hwm))⟩, ?_, rfl, ?_⟩
  · unfold completeUpTo
    rw [inPlaceFilter_eq]
    dsimp only
    rw [folded]
    rfl
  · intro w
    rw [cells w]
    simp only [List.mem_filter, Bool.not_not, decide_eq_true_eq]

theorem failAll_resolved {p : PartitionPurgatory} (wf : p.WellFormed) (err : Int) :
    ∃ p', p.failAll err = some p' ∧ Resolved p p' (fun _ => True) (.failed err) := by
  obtain ⟨heap', folded, cells⟩ := resolve_each (.failed err) p.waiters p.heap wf.distinct
    (fun w member => (wf.parked w).mp member)
  refine ⟨⟨heap', []⟩, ?_, by simp, fun w => by simpa using cells w⟩
  unfold failAll
  rw [folded]
  rfl

end PartitionPurgatory

end KafGo.Coordinator
