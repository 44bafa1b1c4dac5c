import KafGo.Lib.Machine
import Mathlib.Algebra.Ring.Int.Defs
import Mathlib.Data.List.Induction
import Mathlib.Data.List.Nodup

/-!
# Producer ids

The controller hands out producer ids from a block it has leased. A lease is a record in the metadata log, written
before the block is used, so that a controller that comes back takes up after every block that was ever leased.

`AllocateOne` is cut into its steps, because the controller can die between any two of them.
-/

namespace KafGo.Coordinator
open Lib

def defaultPidBlockSize : Int := 1000

structure ProducerIdsRecord where
  brokerId : Int
  brokerEpoch : Int
  nextProducerId : Int
  deriving DecidableEq, Repr

/-- `metaLog` says whether `Configure` has set the metadata log. -/
structure PidManager where
  nextBase : Int
  blockEnd : Int
  step : Int
  brokerID : Int
  brokerEpoch : Int
  metaLog : Bool
  deriving DecidableEq, Repr

def newPidManager : PidManager := ⟨0, 0, defaultPidBlockSize, 0, 0, false⟩

namespace PidManager

def configure (m : PidManager) (brokerID brokerEpoch : Int) : PidManager :=
  { m with brokerID := brokerID, brokerEpoch := brokerEpoch, metaLog := true }

def seedFromLog (m : PidManager) (maxSeen : Int) : PidManager :=
  { m with
    nextBase := if maxSeen > m.nextBase then maxSeen else m.nextBase
    blockEnd := if maxSeen > m.blockEnd then maxSeen else m.blockEnd }

def leaseRecord (m : PidManager) : ProducerIdsRecord := ⟨m.brokerID, m.brokerEpoch, m.blockEnd + m.step⟩

/-- `leaseNextBlockLocked` after its append. -/
def leaseNextBlock (m : PidManager) : PidManager :=
  { m with
    nextBase := if m.nextBase < m.blockEnd then m.blockEnd else m.nextBase
    blockEnd := m.blockEnd + m.step }

end PidManager

def maxSeen (log : List ProducerIdsRecord) : Int :=
  log.foldl (fun seen r => if r.nextProducerId > seen then r.nextProducerId else seen) 0

/-- A controller that starts on a metadata log of which the replay has seen these records. -/
def recoverPidManager (log : List ProducerIdsRecord) (brokerID brokerEpoch : Int) : PidManager :=
  let m := if maxSeen log > 0 then newPidManager.seedFromLog (maxSeen log) else newPidManager
  m.configure brokerID brokerEpoch

/-- Where a call of `AllocateOne` is. It holds the lock all the way, so there is one at a time. -/
inductive PidPhase where
  | idle
  | append
  | lease
  | take
  | reply (pid : Int)
  deriving DecidableEq, Repr

/-- A controller with the records in its metadata log, and the ids that all controllers so far have returned. -/
structure PidHost where
  manager : PidManager
  phase : PidPhase
  log : List ProducerIdsRecord
  issued : List Int
  deriving DecidableEq, Repr

/-- `fail` is an append that returns an error; the record may have reached the log all the same. -/
inductive PidAction where
  | call
  | append
  | fail (written : Bool)
  | lease
  | take
  | reply
  | seed (r : ProducerIdsRecord)
  | restart (brokerID brokerEpoch : Int)
  deriving DecidableEq, Repr

namespace PidHost

/-- Runs end before a lease would leave the range of `int64`. -/
def step : PidAction → PidHost → Option PidHost
  | .call, w => match w.phase with
    | .idle =>
      if w.manager.nextBase ≥ w.manager.blockEnd then
        if w.manager.blockEnd + w.manager.step < 2 ^ 63 then
          some { w with phase := if w.manager.metaLog then .append else .lease }
        else none
      else some { w with phase := .take }
    | _ => none
  | .append, w => match w.phase with
    | .append => some { w with phase := .lease, log := w.log ++ [w.manager.leaseRecord] }
    | _ => none
  | .fail written, w => match w.phase with
    | .append => some { w with phase := .idle, log := if written then w.log ++ [w.manager.leaseRecord] else w.log }
    | _ => none
  | .lease, w => match w.phase with
    | .lease => some { w with phase := .take, manager := w.manager.leaseNextBlock }
    | _ => none
  | .take, w => match w.phase with
    | .take => some { w with
        phase := .reply w.manager.nextBase
        manager := { w.manager with nextBase := w.manager.nextBase + 1 } }
    | _ => none
  | .reply, w => match w.phase with
    | .reply pid => some { w with phase := .idle, issued := w.issued ++ [pid] }
    | _ => none
  | .seed r, w => match w.phase with
    | .idle => if r ∈ w.log then some { w with manager := w.manager.seedFromLog r.nextProducerId } else none
    | _ => none
  | .restart brokerID brokerEpoch, w =>
    some { w with manager := recoverPidManager w.log brokerID brokerEpoch, phase := .idle }

/-- The first controller starts on an empty log. -/
structure Start (w : PidHost) : Prop where
  manager : ∃ brokerID brokerEpoch, w.manager = recoverPidManager [] brokerID brokerEpoch
  phase : w.phase = .idle
  log : w.log = []
  issued : w.issued = []

def machine : Machine PidHost PidAction := ⟨Start, step⟩

end PidHost

theorem maxSeen_append (log : List ProducerIdsRecord) (r : ProducerIdsRecord) :
    maxSeen (log ++ [r]) = max (maxSeen log) r.nextProducerId := by
  unfold maxSeen
  rw [List.foldl_append, List.foldl_cons, List.foldl_nil]
  split <;> omega

theorem le_maxSeen {log : List ProducerIdsRecord} {r : ProducerIdsRecord} (member : r ∈ log) :
    r.nextProducerId ≤ maxSeen log := by
  induction log using List.reverseRecOn with
  | nil => cases member
  | append_singleton log last ih =>
    rw [maxSeen_append]
    rcases List.mem_append.mp member with earlier | here
    · have bound := ih earlier
      omega
    · rw [List.mem_singleton.mp here]
      omega

theorem maxSeen_logged (log : List ProducerIdsRecord) : 0 ≤ maxSeen log ∧
    (0 < maxSeen log → ∃ r ∈ log, r.nextProducerId = maxSeen log) := by
  induction log using List.reverseRecOn with
  | nil => exact ⟨Int.le_refl 0, fun positive => absurd positive (Int.lt_irrefl 0)⟩
  | append_singleton log last ih =>
    obtain ⟨nonneg, found⟩ := ih
    rw [maxSeen_append]
    refine ⟨by omega, fun positive => ?_⟩
    by_cases larger : maxSeen log < last.nextProducerId
    · exact ⟨last, by simp, by omega⟩
    · obtain ⟨r, member, same⟩ := found (by omega)
      exact ⟨r, List.mem_append_left _ member, by omega⟩

/-! ### The invariant -/

def PhaseKnows (w : PidHost) : PidPhase → Prop
  | .idle => True
  | .append => w.manager.blockEnd ≤ w.manager.nextBase
  | .lease => w.manager.blockEnd ≤ w.manager.nextBase ∧ w.manager.leaseRecord ∈ w.log
  | .take => w.manager.nextBase < w.manager.blockEnd
  | .reply pid => pid < w.manager.nextBase ∧ (∀ i ∈ w.issued, i < pid) ∧ ∃ r ∈ w.log, pid < r.nextProducerId

/-- The ids that were returned are below the next one, and the block they come from is in the log. -/
structure Leased (w : PidHost) : Prop where
  configured : w.manager.metaLog = true
  step : 0 < w.manager.step
  nonneg : 0 ≤ w.manager.nextBase
  inside : w.manager.nextBase ≤ w.manager.blockEnd
  logged : 0 < w.manager.blockEnd → ∃ r ∈ w.log, w.manager.blockEnd ≤ r.nextProducerId
  below : ∀ pid ∈ w.issued, pid < w.manager.nextBase
  covered : ∀ pid ∈ w.issued, ∃ r ∈ w.log, pid < r.nextProducerId
  distinct : w.issued.Nodup
  phase : PhaseKnows w w.phase

theorem recover_leased (w : PidHost) (brokerID brokerEpoch : Int) (distinct : w.issued.Nodup)
    (covered : ∀ pid ∈ w.issued, ∃ r ∈ w.log, pid < r.nextProducerId) :
    Leased { w with manager := recoverPidManager w.log brokerID brokerEpoch, phase := .idle } := by
  obtain ⟨nonneg, logged⟩ := maxSeen_logged w.log
  have counters : (recoverPidManager w.log brokerID brokerEpoch).nextBase = maxSeen w.log ∧
      (recoverPidManager w.log brokerID brokerEpoch).blockEnd = maxSeen w.log ∧
      (recoverPidManager w.log brokerID brokerEpoch).step = defaultPidBlockSize := by
    unfold recoverPidManager
    dsimp only
    by_cases positive : maxSeen w.log > 0
    · rw [if_pos positive]
      exact ⟨if_pos positive, if_pos positive, rfl⟩
    · rw [if_neg positive]
      have zero : maxSeen w.log = 0 := by omega
      rw [zero]
      exact ⟨rfl, rfl, rfl⟩
  obtain ⟨nextBase, blockEnd, size⟩ := counters
  refine ⟨rfl, ?_, ?_, ?_, ?_, ?_, covered, distinct, trivial⟩
  · show 0 < (recoverPidManager w.log brokerID brokerEpoch).step
    rw [size]
    decide
  · show 0 ≤ (recoverPidManager w.log brokerID brokerEpoch).nextBase
    omega
  · show (recoverPidManager w.log brokerID brokerEpoch).nextBase ≤
      (recoverPidManager w.log brokerID brokerEpoch).blockEnd
    omega
  · intro positive
    obtain ⟨r, member, same⟩ := logged (by rw [← blockEnd]; exact positive)
    exact ⟨r, member, by rw [same]; exact Int.le_of_eq blockEnd⟩
  · intro pid member
    obtain ⟨r, inLog, less⟩ := covered pid member
    have bound := le_maxSeen inLog
    show pid < (recoverPidManager w.log brokerID brokerEpoch).nextBase
    omega

theorem leased_logged {w : PidHost} (leased : Leased w) (r : ProducerIdsRecord) {phase : PidPhase}
    (knows : PhaseKnows { w with log := w.log ++ [r], phase := phase } phase) :
    Leased { w with log := w.log ++ [r], phase := phase } where
  configured := leased.configured
  step := leased.step
  nonneg := leased.nonneg
  inside := leased.inside
  logged positive := by
    obtain ⟨r', member, bound⟩ := leased.logged positive
    exact ⟨r', List.mem_append_left _ member, bound⟩
  below := leased.below
  covered pid member := by
    obtain ⟨r', inLog, less⟩ := leased.covered pid member
    exact ⟨r', List.mem_append_left _ inLog, less⟩
  distinct := leased.distinct
  phase := knows

theorem seed_leased {w : PidHost} (leased : Leased w) {r : ProducerIdsRecord} (member : r ∈ w.log)
    (idle : w.phase = .idle) : Leased { w with manager := w.manager.seedFromLog r.nextProducerId } := by
  have inside := leased.inside
  have nonneg := leased.nonneg
  have next : w.manager.nextBase ≤ (w.manager.seedFromLog r.nextProducerId).nextBase := by
    simp only [PidManager.seedFromLog]
    split <;> omega
  refine ⟨leased.configured, leased.step, Int.le_trans nonneg next, ?_, ?_, ?_, leased.covered, leased.distinct, ?_⟩
  · simp only [PidManager.seedFromLog]
    split <;> split <;> omega
  · intro positive
    by_cases larger : r.nextProducerId > w.manager.blockEnd
    · exact ⟨r, member, by simp only [PidManager.seedFromLog, if_pos larger, Int.le_refl]⟩
    · simp only [PidManager.seedFromLog, if_neg larger] at positive ⊢
      exact leased.logged positive
  · intro pid issued
    exact Int.lt_of_lt_of_le (leased.below pid issued) next
  · show PhaseKnows _ w.phase
    rw [idle]
    trivial

theorem lease_leased {w : PidHost} (leased : Leased w) (spent : w.manager.blockEnd ≤ w.manager.nextBase)
    (logged : w.manager.leaseRecord ∈ w.log) :
    Leased { w with phase := .take, manager := w.manager.leaseNextBlock } := by
  have inside := leased.inside
  have step := leased.step
  have same : w.manager.leaseNextBlock.nextBase = w.manager.nextBase := if_neg (by omega)
  have moved : w.manager.leaseNextBlock.blockEnd = w.manager.blockEnd + w.manager.step := rfl
  refine ⟨leased.configured, step, ?_, ?_, ?_, ?_, leased.covered, leased.distinct, ?_⟩
  · show 0 ≤ w.manager.leaseNextBlock.nextBase
    rw [same]
    exact leased.nonneg
  · show w.manager.leaseNextBlock.nextBase ≤ w.manager.leaseNextBlock.blockEnd
    omega
  · exact fun _ => ⟨_, logged, Int.le_refl _⟩
  · intro pid issued
    show pid < w.manager.leaseNextBlock.nextBase
    rw [same]
    exact leased.below pid issued
  · show w.manager.leaseNextBlock.nextBase < w.manager.leaseNextBlock.blockEnd
    omega

theorem take_leased {w : PidHost} (leased : Leased w) (room : w.manager.nextBase < w.manager.blockEnd) :
    Leased { w with
      phase := .reply w.manager.nextBase
      manager := { w.manager with nextBase := w.manager.nextBase + 1 } } := by
  have nonneg := leased.nonneg
  obtain ⟨r, member, bound⟩ := leased.logged (by omega)
  refine ⟨leased.configured, leased.step, ?_, ?_, leased.logged, ?_, leased.covered, leased.distinct, ?_,
    leased.below, r, member, by omega⟩
  · show 0 ≤ w.manager.nextBase + 1
    omega
  · show w.manager.nextBase + 1 ≤ w.manager.blockEnd
    omega
  · intro pid issued
    have less := leased.below pid issued
    show pid < w.manager.nextBase + 1
    omega
  · show w.manager.nextBase < w.manager.nextBase + 1
    omega

theorem reply_leased {w : PidHost} {pid : Int} (leased : Leased w) (knows : PhaseKnows w (.reply pid)) :
    Leased { w with phase := .idle, issued := w.issued ++ [pid] } := by
  obtain ⟨next, newest, r, member, less⟩ := knows
  refine ⟨leased.configured, leased.step, leased.nonneg, leased.inside, leased.logged, ?_, ?_, ?_, trivial⟩
  · intro id issued
    rcases List.mem_append.mp issued with earlier | here
    · exact leased.below id earlier
    · rw [List.mem_singleton.mp here]
      exact next
  · intro id issued
    rcases List.mem_append.mp issued with earlier | here
    · exact leased.covered id earlier
    · rw [List.mem_singleton.mp here]
      exact ⟨r, member, less⟩
  · refine List.nodup_append.mpr ⟨leased.distinct, List.nodup_singleton pid, ?_⟩
    intro id issued other here same
    have older := newest id issued
    rw [same, List.mem_singleton.mp here] at older
    exact absurd older (Int.lt_irrefl pid)

theorem step_leased {w w' : PidHost} {a : PidAction} (leased : Leased w) (moves : PidHost.step a w = some w') :
    Leased w' := by
  have knows := leased.phase
  cases a with
  | call =>
    simp only [PidHost.step] at moves
    split at moves
    · split at moves
      · rename_i spent
        obtain ⟨_, moves⟩ := Option.ite_none_right_eq_some.mp moves
        obtain rfl := Option.some.inj moves
        rw [leased.configured, if_pos rfl]
        exact { leased with phase := spent }
      · rename_i room
        obtain rfl := Option.some.inj moves
        exact { leased with phase := Int.not_le.mp room }
    · cases moves
  | append =>
    simp only [PidHost.step] at moves
    split at moves
    · rename_i here
      rw [here] at knows
      obtain rfl := Option.some.inj moves
      exact leased_logged leased _ ⟨knows, by simp⟩
    · cases moves
  | fail written =>
    simp only [PidHost.step] at moves
    split at moves
    · obtain rfl := Option.some.inj moves
      cases written with
      | true => exact leased_logged leased _ trivial
      | false => exact { leased with phase := trivial }
    · cases moves
  | lease =>
    simp only [PidHost.step] at moves
    split at moves
    · rename_i here
      rw [here] at knows
      obtain rfl := Option.some.inj moves
      exact lease_leased leased knows.1 knows.2
    · cases moves
  | take =>
    simp only [PidHost.step] at moves
    split at moves
    · rename_i here
      rw [here] at knows
      obtain rfl := Option.some.inj moves
      exact take_leased leased knows
    · cases moves
  | reply =>
    simp only [PidHost.step] at moves
    split at moves
    · rename_i pid here
      rw [here] at knows
      obtain rfl := Option.some.inj moves
      exact reply_leased leased knows
    · cases moves
  | seed r =>
    simp only [PidHost.step] at moves
    split at moves
    · rename_i here
      split at moves
      · rename_i member
        obtain rfl := Option.some.inj moves
        exact seed_leased leased member here
      · cases moves
    · cases moves
  | restart brokerID brokerEpoch =>
    obtain rfl := Option.some.inj moves
    exact recover_leased w brokerID brokerEpoch leased.distinct leased.covered

theorem start_leased {w : PidHost} (start : w.Start) : Leased w := by
  obtain ⟨⟨brokerID, brokerEpoch, manager⟩, phase, log, issued⟩ := start
  have recovered := recover_leased w brokerID brokerEpoch (by rw [issued]; exact List.nodup_nil) (by rw [issued]; simp)
  rw [log] at recovered
  rw [← manager] at recovered
  have same : w = { w with manager := w.manager, phase := .idle, log := [] } := by
    rw [← phase, ← log]
  rw [same]
  exact recovered

/-- In every run, over any number of failed leases, crashes and restarts, no producer id is returned twice, and each
one was leased by a record that is in the log. -/
theorem producerIds_unique (w : PidHost) (reached : PidHost.machine.Run w) :
    w.issued.Nodup ∧ ∀ pid ∈ w.issued, ∃ r ∈ w.log, pid < r.nextProducerId := by
  have leased : Leased w := Machine.reached_invariant Leased (fun _ => start_leased)
    (fun _ _ _ leased _ => step_leased leased)
    reached
  exact ⟨leased.distinct, leased.covered⟩

/-- The controller dies after its second lease is in the log and before it uses it: the next id is above both. -/
theorem producerIds_unique_crash : ∃ w, PidHost.machine.Run w ∧ w.issued = [0, 2000] ∧ w.issued.Nodup := by
  have schedule := PidHost.machine.exec_reaches (fun _ _ => True) (fun _ _ => true) (fun _ _ _ => trivial)
    [.call, .append, .lease, .take, .reply, .seed ⟨1, 0, 1000⟩, .call, .fail false, .call, .append, .restart 1 1, .call,
      .append, .lease, .take, .reply]
    (fun w => decide (w.issued = [0, 2000]))
    (s := ⟨recoverPidManager [] 1 0, .idle, [], []⟩) ⟨⟨1, 0, rfl⟩, rfl, rfl, rfl⟩ (by decide +kernel)
  obtain ⟨w, reached, issued⟩ := schedule
  exact ⟨w, reached, of_decide_eq_true issued, (producerIds_unique w reached).1⟩

end KafGo.Coordinator
