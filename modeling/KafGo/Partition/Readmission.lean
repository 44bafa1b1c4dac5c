import KafGo.Partition.IsrTick

/-!
# Followers that have stopped

A tick drops a follower by time and adds a replica by offset, both on one snapshot. A follower that stops fetching
while its recorded log end is not below the high watermark is dropped by one tick and added again by the next one.
-/

namespace KafGo.Partition
open Lib Coordinator Protocol Storage

def Recent (ps : PartitionState) (now lagMax r : Int) : Prop :=
  ∃ last, ps.lastCaughtUp r = some last ∧ now - last ≤ lagMax

/-- Every follower in the in-sync set was caught up at most `lagMax` ago. -/
def Talking (ps : PartitionState) (now lagMax : Int) : Prop :=
  ∀ f ∈ ps.isr, f ≠ ps.leaderBrokerID → Recent ps now lagMax f

def Readmitted (ps : PartitionState) (r : Int) : Prop :=
  r ∈ ps.replicas ∧ r ≠ ps.leaderBrokerID ∧ r ∉ ps.isr ∧ ∃ leo, ps.replicaLEO r = some leo ∧ ps.hwm ≤ leo

/-- `p` holds of every tick, with the partition state before it and after it. -/
def EachTick (lagMax : Int) (p : Int → PartitionState → PartitionState → Prop) : List Int → Leader → Prop
  | [], _ => True
  | now :: later, s => ∀ s', s.tick now lagMax = some s' → p now s.ps s'.ps ∧ EachTick lagMax p later s'

variable {lagMax now : Int} {ps : PartitionState} {s s' : Leader}

theorem eachTick {p : Int → PartitionState → PartitionState → Prop}
    (each : ∀ (s : Leader) (now : Int) (s' : Leader), s.tick now lagMax = some s' → p now s.ps s'.ps)
    (times : List Int) (s : Leader) :
    EachTick lagMax p times s := by
  induction times generalizing s with
  | nil => trivial
  | cons now later ih => exact fun s' ticks => ⟨each s now s' ticks, ih s'⟩

theorem not_lagging {r : Int} : ¬ lagging ps now lagMax r = true ↔ Recent ps now lagMax r := by
  unfold lagging Recent
  cases ps.lastCaughtUp r with
  | none => simp
  | some last => simp

theorem readmitted_iff {r : Int} : Readmitted ps r ↔ r ∈ ps.replicas ∧ expands ps r = true := by
  unfold Readmitted expands caughtUp
  cases ps.replicaLEO r with
  | none => simp
  | some leo => simp [and_assoc]

theorem shrinkLoop_lastCaughtUp (snap : PartitionSnapshot) (now lagMax : Int) (todo : List Int) (ps : PartitionState)
    (changed : Bool) : (shrinkLoop snap now lagMax todo ps changed).1.lastCaughtUp = ps.lastCaughtUp := by
  induction todo generalizing ps changed with
  | nil => rfl
  | cons f todo ih =>
    rw [shrinkLoop_cons]
    split
    · exact ih (ps.removeFromISR f) true
    · exact ih ps changed

theorem expandLoop_lastCaughtUp (snap : PartitionSnapshot) (todo : List Int) (ps : PartitionState) (changed : Bool) :
    (expandLoop snap todo ps changed).1.lastCaughtUp = ps.lastCaughtUp := by
  induction todo generalizing ps changed with
  | nil => rfl
  | cons r todo ih =>
    rw [expandLoop_cons]
    split
    · exact ih (ps.addToISR r) true
    · exact ih ps changed

theorem afterLoops_lastCaughtUp (ps : PartitionState) (now lagMax : Int) :
    (afterLoops ps now lagMax).lastCaughtUp = ps.lastCaughtUp :=
  (expandLoop_lastCaughtUp _ _ _ _).trans (shrinkLoop_lastCaughtUp _ _ _ _ _ _)

theorem advanceHWM_hwm (advances : s.advanceHWM = some s') :
    ∃ hwm, s'.ps = { s.ps with hwm := hwm } := by
  have moved : ∃ hwm, s.ps.advanceHWM = { s.ps with hwm := hwm } := by
    unfold PartitionState.advanceHWM
    split
    · exact ⟨s.ps.newHWM, rfl⟩
    · exact ⟨s.ps.hwm, rfl⟩
  unfold Leader.advanceHWM at advances
  split at advances
  · obtain ⟨p, _, rfl⟩ := Option.map_eq_some_iff.mp advances
    exact moved
  · obtain rfl := Option.some.inj advances
    exact moved

theorem checkMinISR_ps (checks : s.checkMinISR = some s') : s'.ps = s.ps := by
  unfold Leader.checkMinISR at checks
  split at checks
  · obtain ⟨p, _, rfl⟩ := Option.map_eq_some_iff.mp checks
    rfl
  · obtain rfl := Option.some.inj checks
    rfl

theorem tick_ps (ticks : s.tick now lagMax = some s') :
    ∃ hwm, s'.ps = { afterLoops s.ps now lagMax with hwm := hwm } := by
  unfold Leader.tick at ticks
  dsimp only at ticks
  split at ticks
  · obtain ⟨s₁, advances, checks⟩ := Option.bind_eq_some_iff.mp ticks
    obtain ⟨hwm, moved⟩ := advanceHWM_hwm advances
    exact ⟨hwm, (checkMinISR_ps checks).trans moved⟩
  · obtain rfl := Option.some.inj ticks
    exact ⟨(afterLoops s.ps now lagMax).hwm, rfl⟩

theorem tick_isr (ticks : s.tick now lagMax = some s') :
    s'.ps.leaderBrokerID = s.ps.leaderBrokerID ∧ s'.ps.lastCaughtUp = s.ps.lastCaughtUp ∧
      ∀ id, id ∈ s'.ps.isr ↔ InSyncAfter s.ps now lagMax id := by
  obtain ⟨hwm, result⟩ := tick_ps ticks
  rw [result]
  exact ⟨(afterLoops_same s.ps now lagMax).leaderBrokerID, afterLoops_lastCaughtUp s.ps now lagMax,
    afterLoops_isr s.ps now lagMax⟩

theorem inSyncAfter_iff {f : Int} (follower : f ≠ ps.leaderBrokerID) :
    InSyncAfter ps now lagMax f ↔ f ∈ ps.isr ∧ Recent ps now lagMax f ∨ Readmitted ps f := by
  have shrinking : ¬ shrinks ps now lagMax f = true ↔ Recent ps now lagMax f := by
    rw [← not_lagging]
    unfold shrinks
    simp [follower]
  unfold InSyncAfter
  rw [shrinking, readmitted_iff]

/-- At every tick of every sequence: the in-sync set holds only followers that are talking exactly if the replicas
which the tick adds are talking, and a follower that has stopped is out of it exactly if the tick does not add it. -/
theorem ticks_talking_iff (lagMax : Int) (times : List Int) (s : Leader) :
    EachTick lagMax (fun now ps ps' =>
      (Talking ps' now lagMax ↔ ∀ r, Readmitted ps r → Recent ps now lagMax r) ∧
      ∀ f, f ≠ ps.leaderBrokerID → ¬ Recent ps now lagMax f → (f ∉ ps'.isr ↔ ¬ Readmitted ps f)) times s := by
  refine eachTick ?_ times s
  intro s now s' ticks
  obtain ⟨leader, caught, members⟩ := tick_isr ticks
  have recent : ∀ f, Recent s'.ps now lagMax f ↔ Recent s.ps now lagMax f := by
    intro f
    unfold Recent
    rw [caught]
  refine ⟨⟨?_, ?_⟩, ?_⟩
  · intro talking r readmitted
    have follower := readmitted.2.1
    apply (recent r).mp
    apply talking r _ (by rw [leader]; exact follower)
    exact (members r).mpr ((inSyncAfter_iff follower).mpr (.inr readmitted))
  · intro talking f member follower
    rw [leader] at follower
    apply (recent f).mpr
    rcases (inSyncAfter_iff follower).mp ((members f).mp member) with ⟨_, still⟩ | readmitted
    · exact still
    · exact talking f readmitted
  · intro f follower stopped
    rw [members f, inSyncAfter_iff follower]
    simp [stopped]

def stoppedAt (leo : Int) : Leader :=
  { newPartition 1 [1, 2] [1, 2] none with
    ps := ⟨1, [1, 2], [1, 2], 9, leo, fun r => if r = 2 then some leo else none, fun r =>
      if r = 2 then some 0 else none⟩ }

/-- A follower that stopped before the end of the log is dropped and stays out. -/
theorem ticks_talking_behind : ∃ s₁ s₂, (stoppedAt 4).tick 11 10 = some s₁ ∧ s₁.tick 12 10 = some s₂ ∧
    Talking s₂.ps 12 10 ∧ 2 ∉ s₂.ps.isr := by
  have runs : (((stoppedAt 4).tick 11 10).any fun s₁ =>
      decide (s₁.ps.leaderBrokerID = 1 ∧ s₁.ps.replicas = [1, 2] ∧ s₁.ps.isr = [1] ∧ s₁.ps.hwm = 9 ∧
        s₁.ps.replicaLEO 2 = some 4 ∧ s₁.ps.lastCaughtUp 2 = some 0) && (s₁.tick 12 10).isSome) = true := by
          decide +kernel
  obtain ⟨s₁, first, rest⟩ := (Option.any_eq_true _ _).mp runs
  obtain ⟨now, next⟩ := Bool.and_eq_true_iff.mp rest
  obtain ⟨leader, replicas, isr, hwm, leo, last⟩ := of_decide_eq_true now
  obtain ⟨s₂, second⟩ := Option.isSome_iff_exists.mp next
  obtain ⟨_, each⟩ := ticks_talking_iff 10 [11, 12] (stoppedAt 4) s₁ first
  obtain ⟨⟨talking, out⟩, _⟩ := each s₂ second
  have alone : ∀ r, ¬ Readmitted s₁.ps r := by
    rintro r ⟨member, follower, _, upto, known, above⟩
    rw [replicas] at member
    rw [leader] at follower
    have second : r = 2 := by
      rcases List.mem_pair.mp member with rfl | rfl
      · exact absurd rfl follower
      · rfl
    rw [second, leo] at known
    rw [hwm, ← Option.some.inj known] at above
    omega
  refine ⟨s₁, s₂, first, second, talking.mpr fun r added => absurd added (alone r), ?_⟩
  refine (out 2 (by rw [leader]; decide) ?_).mpr (alone 2)
  rintro ⟨upto, known, near⟩
  rw [last] at known
  rw [← Option.some.inj known] at near
  omega

/-- A follower that stopped at the end of the log is dropped by one tick and added again by the next one. -/
theorem ticks_readmit_stopped : ∃ s₁ s₂, (stoppedAt 9).tick 11 10 = some s₁ ∧ 2 ∉ s₁.ps.isr ∧ s₁.tick 12 10 = some s₂ ∧
    2 ∈ s₂.ps.isr ∧ ¬ Talking s₂.ps 12 10 := by
  have runs : (((stoppedAt 9).tick 11 10).any fun s₁ => decide (2 ∉ s₁.ps.isr) && (s₁.tick 12 10).any fun s₂ =>
      decide (2 ∈ s₂.ps.isr ∧ s₂.ps.leaderBrokerID = 1 ∧ s₂.ps.lastCaughtUp 2 = some 0)) = true := by decide +kernel
  obtain ⟨s₁, first, rest⟩ := (Option.any_eq_true _ _).mp runs
  obtain ⟨dropped, next⟩ := Bool.and_eq_true_iff.mp rest
  obtain ⟨s₂, second, added⟩ := (Option.any_eq_true _ _).mp next
  obtain ⟨member, leader, last⟩ := of_decide_eq_true added
  refine ⟨s₁, s₂, first, of_decide_eq_true dropped, second, member, ?_⟩
  intro talking
  obtain ⟨upto, known, near⟩ := talking 2 member (by rw [leader]; decide)
  rw [last] at known
  rw [← Option.some.inj known] at near
  omega

end KafGo.Partition
