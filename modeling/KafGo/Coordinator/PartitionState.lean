import Mathlib.Tactic.Common

/-!
The replication state of one partition on its leader. `UpdateReplicaLEO`, `AdvanceHWM` and `OnLeaderAppend`
change it under the partition lock and release waiters after the lock is given up; the definitions here are
the halves under the lock.
-/

namespace KafGo.Coordinator

structure PartitionState where
  leaderBrokerID : Int
  replicas : List Int
  isr : List Int
  leo : Int
  hwm : Int
  replicaLEO : Int → Option Int
  lastCaughtUp : Int → Option Int

/-- `Snapshot` copies every field. -/
abbrev PartitionSnapshot := PartitionState

namespace PartitionState

def snapshot (ps : PartitionState) : PartitionSnapshot := ps

def removeFromISR (ps : PartitionState) (followerId : Int) : PartitionState :=
  { ps with isr := ps.isr.filter (fun id => decide (id ≠ followerId)) }

def addToISR (ps : PartitionState) (followerId : Int) : PartitionState :=
  { ps with isr := ps.isr.filter (fun id => decide (id ≠ followerId)) ++ [followerId] }

def updateReplicaLEO (ps : PartitionState) (now follower upto : Int) : PartitionState :=
  { ps with
    replicaLEO := Function.update ps.replicaLEO follower (some upto)
    lastCaughtUp :=
      if upto ≥ ps.leo then Function.update ps.lastCaughtUp follower (some now) else ps.lastCaughtUp }

/-- The recorded log end of a replica. One that never fetched counts as zero. -/
def recordedLEO (ps : PartitionState) (id : Int) : Int := (ps.replicaLEO id).getD 0

/-- The value `AdvanceHWM` computes: the least log end over the leader and its in-sync followers. -/
def newHWM (ps : PartitionState) : Int :=
  ps.isr.foldl
    (fun newHWM id =>
      if id = ps.leaderBrokerID then newHWM
      else if ps.recordedLEO id < newHWM then ps.recordedLEO id else newHWM)
    ps.leo

def advanced (ps : PartitionState) : Bool := decide (ps.newHWM > ps.hwm)

def advanceHWM (ps : PartitionState) : PartitionState :=
  if ps.advanced then { ps with hwm := ps.newHWM } else ps

def onLeaderAppend (ps : PartitionState) (lastOffset : Int) : PartitionState :=
  { ps with leo := if lastOffset + 1 > ps.leo then lastOffset + 1 else ps.leo }

theorem lt_fold_iff (leader : Int) (recorded : Int → Int) (x : Int) (isr : List Int) (start : Int) :
    x < isr.foldl (fun acc id => if id = leader then acc else if recorded id < acc then recorded id else acc) start ↔
      x < start ∧ ∀ id ∈ isr, id ≠ leader → x < recorded id := by
  induction isr generalizing start with
  | nil => simp
  | cons id rest ih =>
    rw [List.foldl_cons, ih]
    by_cases own : id = leader
    · rw [if_pos own]
      constructor
      · rintro ⟨low, members⟩
        refine ⟨low, fun other member apart => ?_⟩
        rcases List.mem_cons.mp member with rfl | later
        · exact absurd own apart
        · exact members other later apart
      · rintro ⟨low, members⟩
        exact ⟨low, fun other member apart => members other (List.mem_cons_of_mem _ member) apart⟩
    · rw [if_neg own]
      constructor
      · rintro ⟨low, members⟩
        have both : x < start ∧ x < recorded id := by
          split at low <;> omega
        refine ⟨both.1, fun other member apart => ?_⟩
        rcases List.mem_cons.mp member with rfl | later
        · exact both.2
        · exact members other later apart
      · rintro ⟨low, members⟩
        have first := members id (List.mem_cons_self) own
        refine ⟨by split <;> omega, fun other member apart => members other (List.mem_cons_of_mem _ member) apart⟩

theorem lt_newHWM_iff (ps : PartitionState) (x : Int) :
    x < ps.newHWM ↔ x < ps.leo ∧ ∀ id ∈ ps.isr, id ≠ ps.leaderBrokerID → x < ps.recordedLEO id :=
  lt_fold_iff ps.leaderBrokerID ps.recordedLEO x ps.isr ps.leo

theorem newHWM_le_leo (ps : PartitionState) : ps.newHWM ≤ ps.leo := by
  by_contra above
  have low := (ps.lt_newHWM_iff ps.leo).mp (by omega)
  omega

theorem newHWM_le_recorded (ps : PartitionState) {id : Int} (member : id ∈ ps.isr) (follower : id ≠ ps.leaderBrokerID) :
    ps.newHWM ≤ ps.recordedLEO id := by
  by_contra above
  have low := ((ps.lt_newHWM_iff (ps.recordedLEO id)).mp (by omega)).2 id member follower
  omega

theorem advanceHWM_hwm (ps : PartitionState) : ps.advanceHWM.hwm = max ps.hwm ps.newHWM := by
  unfold advanceHWM advanced
  by_cases higher : ps.newHWM > ps.hwm
  · rw [if_pos (by simpa using higher)]
    dsimp only
    omega
  · rw [if_neg (by simpa using higher)]
    omega

theorem advanceHWM_isr (ps : PartitionState) : ps.advanceHWM.isr = ps.isr := by
  unfold advanceHWM
  split <;> rfl

theorem advanceHWM_leo (ps : PartitionState) : ps.advanceHWM.leo = ps.leo := by
  unfold advanceHWM
  split <;> rfl

theorem advanceHWM_replicaLEO (ps : PartitionState) : ps.advanceHWM.replicaLEO = ps.replicaLEO := by
  unfold advanceHWM
  split <;> rfl

theorem advanceHWM_leaderBrokerID (ps : PartitionState) :
    ps.advanceHWM.leaderBrokerID = ps.leaderBrokerID := by
  unfold advanceHWM
  split <;> rfl

theorem onLeaderAppend_leo (ps : PartitionState) (lastOffset : Int) :
    (ps.onLeaderAppend lastOffset).leo = max ps.leo (lastOffset + 1) := by
  unfold onLeaderAppend
  dsimp only
  split <;> omega

end PartitionState

end KafGo.Coordinator
