import KafGo.Partition.Leader

/-!
# What a step can do

`Trans` is the step function as a relation, one rule for each way a step can go. Invariants are proved over
its rules and never unfold `step`.
-/

namespace KafGo.Partition
open Lib Coordinator Protocol Storage

def Task.pending : Task → Option Int
  | .complete _ _ _ hwm => some hwm
  | .wake hwm _ => some hwm
  | _ => none

/-- The tasks of the ISR manager after its snapshot. -/
def Task.managing : Task → Bool
  | .shrink _ _ _ _ _ | .expand _ _ _ | .checkMinISR | .failAll | .advance .checkMinISR => true
  | _ => false

def Task.administers : Task → Bool
  | .tick _ | .shrink _ _ _ _ _ | .expand _ _ _ | .checkMinISR | .removeFromISR _ | .addToISR _ => true
  | _ => false

/-- The commit log is missing, or the write or the append fails. -/
def Leader.appendFails (s : Leader) (env : Env) (d : Produce) : Bool :=
  env.logMissing || env.torn.isSome ||
    match (s.log.appendRaw d.raw d.count).2 with
    | .error _ => true
    | .ok _ => false

/-- The rules of a step in the environment `env`. -/
inductive Trans (env : Env) (s : Leader) : Task → Leader → Task → Prop where
  | refused (q : ProduceRequest) (code : Int) : Trans env s (.arrive q) s (.rejected code)
  | undecodable (q : ProduceRequest) : Trans env s (.arrive q) { s with crash := some .decode } .finished
  | sequenced (q : ProduceRequest) (d : Produce) (pid : 0 ≤ d.pid) : Trans env s (.arrive q) s (.validate d)
  | unsequenced (q : ProduceRequest) (d : Produce) (pid : d.pid < 0) : Trans env s (.arrive q) s (.append d)
  | invalid (d : Produce) (code : Int) (nonzero : code ≠ 0) (idempotence : IdempotenceState)
      (result : s.idempotence.validate env.now d.pid d.epoch d.firstSeq d.lastSeq = (idempotence, .rejected code)) :
      Trans env s (.validate d) { s with idempotence := idempotence } (d.failed code 0)
  | duplicate (d : Produce) (cached : Int) (idempotence : IdempotenceState)
      (result : s.idempotence.validate env.now d.pid d.epoch d.firstSeq d.lastSeq = (idempotence, .duplicate cached)) :
      Trans env s (.validate d) { s with idempotence := idempotence } (d.succeeded cached)
  | accepted (d : Produce) (idempotence : IdempotenceState)
      (result : s.idempotence.validate env.now d.pid d.epoch d.firstSeq d.lastSeq = (idempotence, .fresh)) :
      Trans env s (.validate d) { s with idempotence := idempotence } (.append d)
  | unstored (d : Produce) (code : Int) (nonzero : code ≠ 0) (log : CommitLog)
      (next : log.nextOffset = s.log.nextOffset) (fails : s.appendFails env d = true)
      (grows : s.log.content <+: log.content) :
      Trans env s (.append d) { s with log := log } (d.failed code 0)
  | stored (d : Produce) (log : CommitLog) (base : Int)
      (result : s.log.appendRaw d.raw d.count = (log, .ok base)) :
      Trans env s (.append d) { s with log := log, stored := s.stored ++ [(d, base)] }
        (if d.pid ≥ 0 then .record d base else .raise d base)
  | recorded (d : Produce) (base : Int) : Trans env s (.record d base) (s.record env.now d base) (.raise d base)
  | raised (d : Produce) (base : Int) :
      Trans env s (.raise d base) { s with ps := s.ps.onLeaderAppend (d.lastOffset base) } (.advance (.respond d base))
  | parked (d : Produce) (base : Int) (acks : d.acks = ackExactlyOnce) :
      Trans env s (.respond d base) { s with purgatory := s.purgatory.add (d.lastOffset base) }
        (.readHWM d base s.purgatory.fresh)
  | unparked (d : Produce) (base : Int) (acks : d.acks ≠ ackExactlyOnce) (r : PartitionResult) :
      Trans env s (.respond d base) s (.answered d r)
  | read (d : Produce) (base : Int) (w : Nat) : Trans env s (.readHWM d base w) s (.complete d base w s.ps.hwm)
  | completed (d : Produce) (base : Int) (w : Nat) (hwm : Int) (p : PartitionPurgatory)
      (result : s.purgatory.completeUpTo hwm = some p) :
      Trans env s (.complete d base w hwm) { s with purgatory := p } (.await d base w)
  | stuck (t : Task) (hwm : Int) (here : t.pending = some hwm) (result : s.purgatory.completeUpTo hwm = none) :
      Trans env s t { s with crash := some .channel } .finished
  | timedOut (d : Produce) (base : Int) (w : Nat) : Trans env s (.await d base w) s (d.failed errRequestTimedOut base)
  | released (d : Produce) (base : Int) (w : Nat)
      (result : (s.purgatory.heap[w]?).bind (fun cell => cell.done.receive) = some .completed) :
      Trans env s (.await d base w) s (d.succeeded base)
  | failed (d : Produce) (base : Int) (w : Nat) (code : Int)
      (result : (s.purgatory.heap[w]?).bind (fun cell => cell.done.receive) = some (.failed code)) :
      Trans env s (.await d base w) s (d.failed code base)
  | fetched (follower upto : Int) :
      Trans env s (.replicaFetch follower upto) { s with ps := s.ps.updateReplicaLEO env.now follower upto }
        (.advance .finished)
  | managed (t t' : Task) (here : t.administers = true) (manages : t'.managing = true) : Trans env s t s t'
  | removed (t t' : Task) (here : t.administers = true) (id : Int) (manages : t'.managing = true) :
      Trans env s t { s with ps := s.ps.removeFromISR id } t'
  | added (t t' : Task) (here : t.administers = true) (id : Int) (manages : t'.managing = true) :
      Trans env s t { s with ps := s.ps.addToISR id } t'
  | idled (t : Task) (here : t.administers = true) : Trans env s t s .finished
  | removedOnce (id : Int) : Trans env s (.removeFromISR id) { s with ps := s.ps.removeFromISR id } .finished
  | addedOnce (id : Int) : Trans env s (.addToISR id) { s with ps := s.ps.addToISR id } .finished
  | failedAll (p : PartitionPurgatory)
      (result : s.purgatory.failAll errNotEnoughReplicasAfterAppend = some p) :
      Trans env s .failAll { s with purgatory := p } .finished
  | stuckAll (result : s.purgatory.failAll errNotEnoughReplicasAfterAppend = none) :
      Trans env s .failAll { s with crash := some .channel } .finished
  | advanced (next : After) (higher : s.ps.advanced = true) :
      Trans env s (.advance next) { s with ps := s.ps.advanceHWM } (.wake s.ps.advanceHWM.hwm next)
  | unmoved (next : After) (level : s.ps.advanced = false) :
      Trans env s (.advance next) { s with ps := s.ps.advanceHWM } next.task
  | woken (hwm : Int) (next : After) (p : PartitionPurgatory)
      (result : s.purgatory.completeUpTo hwm = some p) : Trans env s
        (.wake hwm next) { s with purgatory := p } next.task

/-! ### The step function follows the rules -/

theorem arrive_trans (snappy : Bytes → Option Bytes) (env : Env) (s : Leader) (q : ProduceRequest) :
    Trans env s (.arrive q) (s.arrive snappy q).1 (s.arrive snappy q).2 := by
  unfold Leader.arrive
  split
  · exact .refused q _
  · split
    · exact .refused q _
    · split
      · exact .refused q _
      · split
        · exact .refused q _
        · split
          · exact .undecodable q
          · exact .refused q _
          · dsimp only
            split
            · exact .sequenced q _ (by assumption)
            · exact .unsequenced q _ (by omega)

theorem rejected_nonzero {s s' : IdempotenceState} {now pid epoch firstSeq lastSeq code : Int}
    (result : s.validate now pid epoch firstSeq lastSeq = (s', .rejected code)) : code ≠ 0 := by
  have unknown : ∀ firstSeq, IdempotenceState.validateUnknown firstSeq = .rejected code → code ≠ 0 := by
    intro firstSeq rejected
    unfold IdempotenceState.validateUnknown at rejected
    split at rejected
    · rw [← Verdict.rejected.inj rejected]
      decide
    · cases rejected
  unfold IdempotenceState.validate at result
  split at result
  · exact unknown _ (Prod.mk.inj result).2
  · split at result
    · exact unknown _ (Prod.mk.inj result).2
    · repeat' split at result
      all_goals
        have same := (Prod.mk.inj result).2
        cases same <;> decide

theorem validate_trans (s : Leader) (env : Env) (d : Produce) :
    Trans env s (.validate d) (s.validate env.now d).1 (s.validate env.now d).2 := by
  unfold Leader.validate
  rcases result : s.idempotence.validate env.now d.pid d.epoch d.firstSeq d.lastSeq with ⟨idempotence, verdict⟩
  dsimp only
  cases verdict with
  | fresh => exact .accepted d idempotence result
  | duplicate cached => exact .duplicate d cached idempotence result
  | rejected code => exact .invalid d code (rejected_nonzero result) idempotence result

theorem append_trans (s : Leader) (env : Env) (d : Produce) :
    Trans env s (.append d) (s.append env d).1 (s.append env d).2 := by
  unfold Leader.append
  split
  · rename_i missing
    exact .unstored d _ (by decide) s.log rfl (by simp [Leader.appendFails, missing]) List.prefix_rfl
  · split
    · rename_i torn
      exact .unstored d _ (by decide) _ (s.log.appendTorn_nextOffset _ _) (by simp [Leader.appendFails, torn])
        (s.log.appendTorn_grows _ _)
    · split
      · rename_i result
        have grows := s.log.appendRaw_grows d.raw d.count
        rw [result] at grows
        exact .unstored d _ (by decide) _ (CommitLog.appendRaw_error result)
          (by simp [Leader.appendFails, result]) grows
      · rename_i result
        exact .stored d _ _ result

theorem respond_trans (env : Env) (s : Leader) (d : Produce) (base : Int) :
    Trans env s (.respond d base) (s.respond d base).1 (s.respond d base).2 := by
  unfold Leader.respond
  split
  · exact .parked d base (by assumption)
  · split
    · exact .unparked d base (by assumption) _
    · exact .unparked d base (by assumption) _

variable {s : Leader} {env : Env} {t : Task} {snappy : Bytes → Option Bytes}

theorem await_trans {d : Produce} {base : Int} {w : Nat} (ready : s.await env d base w = some t) :
    Trans env s (.await d base w) s t := by
  unfold Leader.await at ready
  split at ready
  · obtain rfl := Option.some.inj ready
    exact .timedOut d base w
  · split at ready
    · cases ready
    · obtain rfl := Option.some.inj ready
      exact .released d base w (by assumption)
    · obtain rfl := Option.some.inj ready
      exact .failed d base w _ (by assumption)

theorem step_trans {s' : Leader} {t' : Task} (moves : step snappy env s t = some (s', t')) : Trans env s t s' t' := by
  have result : ∀ r : Leader × Task, some r = some (s', t') → Trans env s t r.1 r.2 → Trans env s t s' t' := by
    intro r same rule
    rw [Option.some.inj same] at rule
    exact rule
  cases t with
  | arrive q => exact result _ moves (arrive_trans snappy env s q)
  | validate d => exact result _ moves (validate_trans s env d)
  | append d => exact result _ moves (append_trans s env d)
  | record d base => exact result _ moves (.recorded d base)
  | raise d base => exact result _ moves (.raised d base)
  | respond d base => exact result _ moves (respond_trans env s d base)
  | readHWM d base w => exact result _ moves (.read d base w)
  | complete d base w hwm =>
    refine result _ moves ?_
    unfold Leader.released
    split
    · exact .completed d base w hwm _ (by assumption)
    · exact .stuck _ hwm rfl (by assumption)
  | await d base w =>
    obtain ⟨next, ready, same⟩ := Option.map_eq_some_iff.mp moves
    obtain ⟨rfl, rfl⟩ := Prod.mk.inj same
    exact await_trans ready
  | replicaFetch follower upto => exact result _ moves (.fetched follower upto)
  | tick lagMax => exact result _ moves (.managed _ _ rfl rfl)
  | shrink snap now lagMax todo changed =>
    cases todo with
    | nil => exact result _ moves (.managed _ _ rfl rfl)
    | cons f todo =>
      simp only [step] at moves
      split at moves
      · exact result _ moves (.removed _ _ rfl f rfl)
      · exact result _ moves (.managed _ _ rfl rfl)
  | expand snap todo changed =>
    cases todo with
    | nil =>
      refine result _ moves ?_
      cases changed
      · exact .idled _ rfl
      · exact .managed _ _ rfl rfl
    | cons r todo =>
      simp only [step] at moves
      split at moves
      · exact result _ moves (.added _ _ rfl r rfl)
      · exact result _ moves (.managed _ _ rfl rfl)
  | checkMinISR =>
    refine result _ moves ?_
    dsimp only
    split
    · exact .managed _ _ rfl rfl
    · exact .idled _ rfl
  | failAll =>
    refine result _ moves ?_
    unfold Leader.released
    split
    · exact .failedAll _ (by assumption)
    · exact .stuckAll (by assumption)
  | removeFromISR id => exact result _ moves (.removedOnce id)
  | addToISR id => exact result _ moves (.addedOnce id)
  | advance next =>
    refine result _ moves ?_
    dsimp only
    split
    · exact .advanced next (by assumption)
    · exact .unmoved next (by simpa using ‹¬ s.ps.advanced = true›)
  | wake hwm next =>
    refine result _ moves ?_
    unfold Leader.released
    split
    · exact .woken hwm next _ (by assumption)
    · exact .stuck _ hwm rfl (by assumption)
  | rejected code => cases moves
  | answered d r => cases moves
  | finished => cases moves

theorem system_step {next : Leader × Task} :
    (leaderSystem snappy).step env s t = some next ↔
      s.crash = none ∧ s.fits t = true ∧ step snappy env s t = some next := by
  simp only [leaderSystem, Option.ite_none_left_eq_some, Bool.or_eq_true, Bool.not_eq_eq_eq_not, Bool.not_true, not_or,
    Bool.not_eq_false, Bool.not_eq_true, Option.isSome_eq_false_iff, Option.isNone_iff_eq_none, and_assoc]

theorem system_trans {s' : Leader} {t' : Task} (moves : (leaderSystem snappy).step env s t = some (s', t')) :
    s.crash = none ∧ Trans env s t s' t' := by
  obtain ⟨up, _, moves⟩ := system_step.mp moves
  exact ⟨up, step_trans moves⟩

end KafGo.Partition
