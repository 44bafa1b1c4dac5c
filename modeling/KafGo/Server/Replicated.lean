import KafGo.Lib.Projection
import KafGo.Partition.Stored
import KafGo.Partition.InSync
import KafGo.Server.Accepted
import KafGo.Server.ReplicaFetcher

/-!
# A partition and its followers

The goroutines of a partition leader, and any number of brokers that fetch from it. A fetch request names the offset
up to which the follower has the log. The leader takes it for the follower's log end, counts it for the high watermark,
and only then looks for records. Requests and answers may be lost, and a handler on the leader may be overtaken by the
next request of its follower.

The leader believes what it is told. What it is told was true when it was sent, and a follower's log does not shrink,
so the in-sync followers have what the high watermark covers.
-/

namespace KafGo.Server
open Lib Coordinator Protocol Storage Partition

/-- `awaited` is the number of the request whose answer a follower waits for. It goes up with every request, and
with every answer. -/
structure Replicated where
  leader : Leader
  fetchers : Int → ReplicaFetcher
  awaited : Int → Nat

/-- The goroutines. `fetch` to `answer` are one iteration of a replica fetcher; the leader handles it in between. -/
inductive Work where
  | leading (t : Task)
  | fetch (id : Int)
  | handle (id : Int) (n : Nat) (off : Int) (t : Task)
  | readLEO (id : Int) (n : Nat) (off : Int)
  | find (id : Int) (n : Nat) (off maxVisible : Int)
  | answer (id : Int) (n : Nat) (records : Option Bytes)
  | consume (off maxBytes : Int)
  | findVisible (off maxBytes hwm : Int)
  | consumed (records : Option Bytes)
  | done

namespace Replicated

def received (s : Replicated) (id : Int) (records : Option Bytes) : Replicated :=
  { s with
    fetchers := Function.update s.fetchers id ((s.fetchers id).receive records)
    awaited := Function.update s.awaited id (s.awaited id + 1) }

def step (snappy : Bytes → Option Bytes) (env : Env) (s : Replicated) : Work → Option (Replicated × Work)
  | .leading t => ((leaderSystem snappy).step env s.leader t).map fun next =>
      ({ s with leader := next.1 }, .leading next.2)
  | .fetch id =>
    let n := s.awaited id + 1
    let off := (s.fetchers id).fetchOffset
    some ({ s with awaited := Function.update s.awaited id n }, .handle id n off (.replicaFetch id off))
  | .handle id n off .finished => some (s, .readLEO id n off)
  | .handle id n off t =>
    ((leaderSystem snappy).step env s.leader t).map fun next => ({ s with leader := next.1 }, .handle id n off next.2)
  | .readLEO id n off => some (s, .find id n off s.leader.ps.leo)
  | .find id n off maxVisible => some (s, .answer id n (fetchRecords s.leader.log off partitionMaxBytes maxVisible))
  | .answer id n records =>
    if s.awaited id = n then some (s.received id records, .done) else some (s, .done)
  | .consume off maxBytes => some (s, .findVisible off maxBytes s.leader.ps.hwm)
  | .findVisible off maxBytes hwm => some (s, .consumed (fetchRecords s.leader.log off maxBytes hwm))
  | .consumed _ => none
  | .done => none

/-- A partition as `AssignReplicas` makes it, on any log, and followers with empty directories. -/
structure Start (s : Replicated) : Prop where
  leader : Assigned s.leader
  leads : s.leader.ps.leaderBrokerID = s.leader.brokerID
  log : ∃ layout, Built s.leader.log layout
  followers : ∀ id, ∃ config, 0 < config.segmentMaxBytes ∧ s.fetchers id = newReplicaFetcher id (newCommitLog config [])

end Replicated

/-- A broker whose id is not positive is served like a consumer. -/
inductive Started : Work → Prop where
  | produce (q : ProduceRequest) : Started (.leading (.arrive q))
  | tick (lagMax : Int) : Started (.leading (.tick lagMax))
  | fetch (id : Int) (replica : isReplicated id = true) : Started (.fetch id)
  | consume (off maxBytes : Int) : Started (.consume off maxBytes)

def replicatedSystem (snappy : Bytes → Option Bytes) : System Replicated Work Env where
  start := Replicated.Start
  spawn := Started
  step env s w := if s.leader.crash.isSome then none else s.step snappy env w

/-- The header of a batch that is stored tells the truth and its write does not fail; a replica still reaches the high
watermark when it joins the in-sync set; the index leads to the batch at the offset of a fetch that is waited for, and
the records of its answer can be counted. -/
def Work.sound (s : Replicated) (env : Env) : Work → Bool
  | .leading (.append d) => decide (WellFormed d.raw) && env.torn.isNone
  | .leading (.expand snap (r :: _) _) => !expands snap r || caughtUp s.leader.ps r
  | .find id n off _ =>
    decide (s.awaited id ≠ n) || decide (s.leader.log.nextOffset ≤ off) || leadsTo s.leader.log off
  | .answer id n records => decide (s.awaited id ≠ n) || records.all countFits
  | _ => true

def Sound : Condition Replicated Work Env := atTask fun s w env => w.sound s env = true

inductive Acts (snappy : Bytes → Option Bytes) (env : Env) (s : Replicated) : Work → Replicated → Work → Prop where
  | led {t t' : Task} {leader : Leader} (room : s.leader.fits t = true)
      (moves : Partition.step snappy env s.leader t = some (leader, t')) :
      Acts snappy env s (.leading t) { s with leader := leader } (.leading t')
  | asked (id : Int) :
      Acts snappy env s (.fetch id) { s with awaited := Function.update s.awaited id (s.awaited id + 1) }
        (.handle id (s.awaited id + 1) (s.fetchers id).fetchOffset (.replicaFetch id (s.fetchers id).fetchOffset))
  | handled {id : Int} {n : Nat} {off : Int} {t t' : Task} {leader : Leader} (room : s.leader.fits t = true)
      (moves : Partition.step snappy env s.leader t = some (leader, t')) :
      Acts snappy env s (.handle id n off t) { s with leader := leader } (.handle id n off t')
  | counted (id : Int) (n : Nat) (off : Int) : Acts snappy env s (.handle id n off .finished) s (.readLEO id n off)
  | read (id : Int) (n : Nat) (off : Int) : Acts snappy env s (.readLEO id n off) s (.find id n off s.leader.ps.leo)
  | found (id : Int) (n : Nat) (off maxVisible : Int) : Acts snappy env s (.find id n off maxVisible) s
      (.answer id n (fetchRecords s.leader.log off partitionMaxBytes maxVisible))
  | received {id : Int} {n : Nat} (records : Option Bytes) (current : s.awaited id = n) :
      Acts snappy env s (.answer id n records) (s.received id records) .done
  | dropped {id : Int} {n : Nat} (records : Option Bytes) (stale : s.awaited id ≠ n) :
      Acts snappy env s (.answer id n records) s .done
  | consumes (off maxBytes : Int) : Acts snappy env s (.consume off maxBytes) s
      (.findVisible off maxBytes s.leader.ps.hwm)
  | visible (off maxBytes hwm : Int) : Acts snappy env s (.findVisible off maxBytes hwm) s
      (.consumed (fetchRecords s.leader.log off maxBytes hwm))

section Steps

variable {snappy : Bytes → Option Bytes} {env : Env} {s s' : Replicated} {w w' : Work} {p : Leader → Task → Env → Prop}
  {allowed : Condition Replicated Work Env} {c : Config Replicated Work}

theorem step_acts (moves : s.step snappy env w = some (s', w')) : Acts snappy env s w s' w' := by
  cases w with
  | leading t =>
    obtain ⟨⟨leader, t'⟩, stepped, same⟩ := Option.map_eq_some_iff.mp moves
    obtain ⟨rfl, rfl⟩ := Prod.mk.inj same
    exact .led (system_step.mp stepped).2.1 (system_step.mp stepped).2.2
  | fetch id =>
    cases moves
    exact .asked id
  | handle id n off t =>
    by_cases ended : t = .finished
    · subst ended
      cases moves
      exact .counted id n off
    · rw [Replicated.step] at moves
      · obtain ⟨⟨leader, t'⟩, stepped, same⟩ := Option.map_eq_some_iff.mp moves
        obtain ⟨rfl, rfl⟩ := Prod.mk.inj same
        exact .handled (system_step.mp stepped).2.1 (system_step.mp stepped).2.2
      · exact ended
  | readLEO id n off =>
    cases moves
    exact .read id n off
  | find id n off maxVisible =>
    cases moves
    exact .found id n off maxVisible
  | answer id n records =>
    simp only [Replicated.step] at moves
    split at moves
    · cases moves
      exact .received records (by assumption)
    · cases moves
      exact .dropped records (by assumption)
  | consume off maxBytes =>
    cases moves
    exact .consumes off maxBytes
  | findVisible off maxBytes hwm =>
    cases moves
    exact .visible off maxBytes hwm
  | consumed records => cases moves
  | done => cases moves

theorem system_acts (moves : (replicatedSystem snappy).step env s w = some (s', w')) :
    s.leader.crash = none ∧ Acts snappy env s w s' w' := by
  simp only [replicatedSystem] at moves
  split at moves
  · cases moves
  · rename_i up
    exact ⟨Option.not_isSome_iff_eq_none.mp up, step_acts moves⟩

def Work.task : Work → Option Task
  | .leading t => some t
  | .handle _ _ _ t => some t
  | .readLEO .. | .find .. | .answer .. | .done => some .finished
  | .fetch _ | .consume .. | .findVisible .. | .consumed _ => none

theorem acts_projects (acts : Acts snappy env s w s' w') (up : s.leader.crash = none)
    (permitted : ∀ t, w.task = some t → p s.leader t env) :
    Projects (leaderSystem snappy) p s.leader s'.leader w.task w'.task := by
  cases acts with
  | led room moves => exact .steps rfl rfl (permitted _ rfl) (system_step.mpr ⟨up, room, moves⟩)
  | handled room moves => exact .steps rfl rfl (permitted _ rfl) (system_step.mpr ⟨up, room, moves⟩)
  | asked id => exact .spawns rfl rfl rfl (.fetch id _)
  | _ => exact .idle rfl rfl

/-- What the goroutines do on the leader is a run of the leader. -/
theorem leader_reached
    (permitted : ∀ c i env w t, allowed c i env → c.tasks[i]? = some w → w.task = some t → p c.shared.leader t env)
    (reached : Reachable (replicatedSystem snappy) allowed c) :
    Reachable (leaderSystem snappy) (atTask p) ⟨c.shared.leader, c.tasks.filterMap Work.task⟩ := by
  refine reachable_projects Replicated.leader Work.task (fun s (start : s.Start) => start.leader.fresh) ?_ ?_ reached
  · intro w t new view
    cases new with
    | produce q => exact Option.some.inj view ▸ Spawned.produce q
    | tick lagMax => exact Option.some.inj view ▸ Spawned.tick lagMax
    | fetch id replica => cases view
    | consume off maxBytes => cases view
  · intro c i env w s' w' _ at_i allows moves
    obtain ⟨up, acts⟩ := system_acts moves
    exact acts_projects acts up fun t view => permitted c i env w t allows at_i view

theorem leader_run (reached : Reachable (replicatedSystem snappy) allowed c) :
    Run snappy ⟨c.shared.leader, c.tasks.filterMap Work.task⟩ :=
  reachable_free (leader_reached (p := fun _ _ _ => True) (fun _ _ _ _ _ _ _ _ => trivial) reached)

theorem run_decoded (reached : Reachable (replicatedSystem snappy) allowed c) (member : w ∈ c.tasks) :
    ∀ t d, w.task = some t → t.produce = some d → Decoded snappy d := fun t d view works =>
  ((run_backed (leader_run reached)).2 t (List.mem_filterMap.mpr ⟨w, member, view⟩)).2 d works

end Steps

def Leads : Task → Prop
  | .replicaFetch _ _ | .removeFromISR _ | .addToISR _ => False
  | _ => True

def Serves (id off : Int) : Task → Prop
  | .replicaFetch follower upto => follower = id ∧ upto = off
  | .advance .finished | .wake _ .finished | .finished => True
  | _ => False

theorem managing_leads {t : Task} (manages : t.managing = true) : Leads t := by
  cases t <;> trivial

section Tasks

variable {snappy : Bytes → Option Bytes} {env : Env} {s s' : Leader} {t t' : Task} {id off : Int}

theorem trans_leads (rule : Trans env s t s' t') : Leads t' := by
  cases rule
  case stored d log base result => split <;> trivial
  case managed here manages => exact managing_leads manages
  case removed id here manages => exact managing_leads manages
  case added id here manages => exact managing_leads manages
  case unmoved next level => cases next <;> trivial
  case woken hwm next p result => cases next <;> trivial
  all_goals trivial

theorem step_serves (moves : Partition.step snappy env s t = some (s', t')) (serves : Serves id off t) :
    Serves id off t' := by
  cases t with
  | replicaFetch follower upto =>
    rw [← (Prod.mk.inj (Option.some.inj moves)).2]
    trivial
  | advance next =>
    cases next with
    | finished => cases step_trans moves <;> trivial
    | _ => exact serves.elim
  | wake hwm next =>
    cases next with
    | finished => cases step_trans moves <;> trivial
    | _ => exact serves.elim
  | finished => cases moves
  | _ => exact serves.elim

/-- The batch of a request was appended, or the append failed. -/
structure Appended (snappy : Bytes → Option Bytes) (s s' : Leader) (d : Produce) (b : Batch) : Prop where
  decoded : Decoded snappy d
  data : b.data = d.raw
  count : b.count = d.count
  room : s.log.nextOffset + b.count < 2 ^ 63
  log : s'.log = (s.log.appendRaw b.data b.count).1
  stored : ∀ log base, s.log.appendRaw b.data b.count = (log, .ok base) → s'.stored = s.stored ++ [(d, base)]

def Appends (snappy : Bytes → Option Bytes) (s s' : Leader) : Prop :=
  (s'.log = s.log ∧ s'.stored = s.stored) ∨ ∃ d b, Appended snappy s s' d b

theorem led_appends {s : Replicated} (moves : Partition.step snappy env s.leader t = some (s', t'))
    (room : s.leader.fits t = true) (decoded : ∀ d, t.produce = some d → Decoded snappy d)
    (sound : (Work.leading t).sound s env = true) :
    Appends snappy s.leader s' := by
  cases t with
  | append d =>
    simp only [Work.sound, Bool.and_eq_true, decide_eq_true_eq, Option.isNone_iff_eq_none] at sound
    obtain ⟨truthful, untorn⟩ := sound
    have room := of_decide_eq_true room
    have result : s.leader.append env d = (s', t') := Option.some.inj moves
    unfold Leader.append at result
    rw [untorn] at result
    split at result
    · rw [← (Prod.mk.inj result).1]
      exact Or.inl ⟨rfl, rfl⟩
    · dsimp only at result
      split at result <;>
      · rename_i appended
        rw [← (Prod.mk.inj result).1]
        refine Or.inr ⟨d, acceptedBatch (decoded d rfl) truthful, decoded d rfl, rfl, rfl, room,
          (congrArg Prod.fst appended).symm, fun log base ok => ?_⟩
        cases appended.symm.trans ok <;> rfl
  | _ =>
    refine Or.inl ?_
    cases step_trans moves <;> exact ⟨rfl, rfl⟩

theorem served_appends (moves : Partition.step snappy env s t = some (s', t')) (serves : Serves id off t) :
    Appends snappy s s' := by
  refine Or.inl ?_
  cases t with
  | append d => exact serves.elim
  | _ => cases step_trans moves <;> exact ⟨rfl, rfl⟩

end Tasks

/-! ### The invariant -/

/-- The leader and one follower, whose iteration is at `phase`. -/
def Replicated.replication (s : Replicated) (id : Int) (phase : Phase) : Replication :=
  ⟨s.leader.log, s.leader.ps, { s.fetchers id with phase := phase }⟩

/-- Every follower has the first batches of the leader. What the leader has recorded of a follower was true when it was
sent, and the follower's log has not become shorter since then. -/
structure Replicates (s : Replicated) : Prop where
  mirrored : ∀ id, Mirrored (s.replication id .idle)
  recorded : ∀ id r, s.leader.ps.replicaLEO id = some r → r ≤ (s.fetchers id).fetchOffset
  committed : ∀ id ∈ s.leader.ps.isr, id ≠ s.leader.ps.leaderBrokerID → s.leader.ps.hwm ≤ (s.fetchers id).fetchOffset

/-- As long as a request is waited for, its follower stands where it stood when it sent the request. -/
def Replicated.Current (s : Replicated) (id : Int) (n : Nat) (off : Int) : Prop :=
  n ≤ s.awaited id ∧ (s.awaited id = n → (s.fetchers id).fetchOffset = off)

def Work.Own (s : Replicated) : Work → Prop
  | .leading t => Leads t
  | .handle id n off t => Serves id off t ∧ off ≤ (s.fetchers id).fetchOffset ∧ s.Current id n off
  | .readLEO id n off | .find id n off _ => s.Current id n off
  | .answer id n records => n ≤ s.awaited id ∧ (s.awaited id = n → Mirrored (s.replication id (.answered records)))
  | _ => True

theorem mirrored_ps {log : CommitLog} {ps : PartitionState} {rf : ReplicaFetcher} (mirrored : Mirrored ⟨log, ps, rf⟩)
    (ps' : PartitionState) : Mirrored ⟨log, ps', rf⟩ := by
  obtain ⟨layout, copy, next, kept, rest, mirrors⟩ := mirrored
  exact ⟨layout, copy, next, kept, rest, mirrors.leader, mirrors.follower, mirrors.whole, mirrors.offset,
    mirrors.answer⟩

section Led

variable {snappy : Bytes → Option Bytes} {env : Env} {s : Replicated} {leader : Leader} {t t' : Task}

theorem appends_mirrored (appends : Appends snappy s.leader leader) {id : Int} {phase : Phase}
    (mirrored : Mirrored (s.replication id phase)) :
    Mirrored (Replicated.replication { s with leader := leader } id phase) := by
  rcases appends with ⟨same, _⟩ | ⟨d, b, appended⟩
  · have kept := mirrored_ps mirrored leader.ps
    rwa [← same] at kept
  · obtain ⟨layout, copy, next, kept, rest, mirrors⟩ := mirrored
    have grown := mirrored_ps (append_mirrored mirrors b appended.room) leader.ps
    rwa [show (s.replication id phase).leader = s.leader.log from rfl, ← appended.log] at grown

theorem led_own (appends : Appends snappy s.leader leader) (u : Work) (own : u.Own s) :
    u.Own { s with leader := leader } := by
  cases u with
  | answer id n records => exact ⟨own.1, fun current => appends_mirrored appends (own.2 current)⟩
  | _ => exact own

theorem led_replicates (moves : Partition.step snappy env s.leader t = some (leader, t')) (several : ¬ t.addsOnce)
    (low : 0 ≤ s.leader.ps.hwm) (appends : Appends snappy s.leader leader)
    (truth : ∀ follower upto, t = .replicaFetch follower upto → upto ≤ (s.fetchers follower).fetchOffset)
    (caught : ∀ snap r todo changed, t = .expand snap (r :: todo) changed → expands snap r = true →
      caughtUp s.leader.ps r = true)
    (replicates : Replicates s) : Replicates { s with leader := leader } := by
  have rule := step_trans moves
  have recorded : ∀ id r, leader.ps.replicaLEO id = some r → r ≤ (s.fetchers id).fetchOffset := by
    intro id r found
    rcases trans_recorded rule with ⟨same, _⟩ | ⟨follower, upto, here, fetched⟩
    · rw [same] at found
      exact replicates.recorded id r found
    · rw [fetched] at found
      by_cases reporter : id = follower
      · subst reporter
        obtain rfl : upto = r := by simpa [PartitionState.updateReplicaLEO] using found
        exact truth id upto here
      · refine replicates.recorded id r ?_
        simpa [PartitionState.updateReplicaLEO, Function.update_of_ne reporter] using found
  refine ⟨fun id => appends_mirrored appends (replicates.mirrored id), recorded, ?_⟩
  intro id member follower
  by_cases higher : s.leader.ps.hwm < leader.ps.hwm
  · obtain ⟨r, found, bound⟩ := (change_raise (trans_ps rule) low higher).2 id member follower
    exact Int.le_trans bound (recorded id r found)
  · have leads : leader.ps.leaderBrokerID = s.leader.ps.leaderBrokerID := by
      rcases trans_recorded rule with ⟨_, same⟩ | ⟨_, _, _, fetched⟩
      · exact same
      · rw [fetched]
        rfl
    rw [leads] at follower
    rcases step_joins moves several with within | ⟨snap, r, todo, changed, here, joins, added⟩
    · exact Int.le_trans (Int.not_lt.mp higher) (replicates.committed id (within id member) follower)
    · rw [added] at member ⊢
      rcases List.mem_append.mp member with old | new
      · exact replicates.committed id (List.mem_of_mem_filter old) follower
      · obtain ⟨upto, found, bound⟩ := caughtUp_recorded (caught snap r todo changed here joins)
        rw [List.mem_singleton.mp new]
        exact Int.le_trans bound (replicates.recorded r upto found)

end Led

section Received

variable {snappy : Bytes → Option Bytes} {s : Replicated} {id : Int} {n : Nat} {records : Option Bytes}

theorem receive_forward {rf : ReplicaFetcher} (here : rf.fetchOffset = rf.commitLog.nextOffset)
    (records : Option Bytes) :
    rf.fetchOffset ≤ (rf.receive records).fetchOffset := by
  unfold ReplicaFetcher.receive
  dsimp only
  split
  · exact Int.le_refl _
  · split
    · exact Int.le_refl _
    · split
      · exact Int.le_refl _
      · split
        · exact Int.le_refl _
        · split
          · exact Int.le_refl _
          · rename_i appended
            have based := (CommitLog.appendRaw_ok appended).1
            dsimp only at based ⊢
            omega

theorem mirrored_offset {r : Replication} (mirrored : Mirrored r) :
    r.fetcher.fetchOffset = r.fetcher.commitLog.nextOffset := by
  obtain ⟨layout, copy, next, kept, rest, mirrors⟩ := mirrored
  rw [mirrors.offset, mirrors.follower.next]

theorem answered_received (mirrored : Mirrored (s.replication id (.answered records)))
    (fits : records.all countFits = true) :
    Mirrored ⟨s.leader.log, s.leader.ps, (s.fetchers id).receive records⟩ := by
  obtain ⟨layout, copy, next, kept, rest, mirrors⟩ := mirrored
  cases records with
  | none =>
    exact ⟨layout, copy, next, kept, rest, mirrors_phase mirrors s.leader.ps nofun⟩
  | some raw =>
    obtain ⟨lead, more, nonempty, rfl, parts⟩ := mirrors.answer raw rfl
    exact receive_mirrored mirrors nonempty parts (by simpa using fits)

theorem received_forward (replicates : Replicates s) (other : Int) :
    (s.fetchers other).fetchOffset ≤ ((s.received id records).fetchers other).fetchOffset := by
  by_cases same : other = id
  · subst same
    simp only [Replicated.received, Function.update_self]
    exact receive_forward (mirrored_offset (replicates.mirrored other)) records
  · simp only [Replicated.received, Function.update_of_ne same]
    exact Int.le_refl _

theorem received_replicates (replicates : Replicates s) (mirrored : Mirrored (s.replication id (.answered records)))
    (fits : records.all countFits = true) : Replicates (s.received id records) where
  mirrored other := by
    by_cases same : other = id
    · subst same
      obtain ⟨layout, copy, next, kept, rest, mirrors⟩ := answered_received mirrored fits
      refine ⟨layout, copy, next, kept, rest, ?_⟩
      have idle : Mirrors _ layout copy next kept rest :=
        mirrors_phase mirrors s.leader.ps fun raw => (nofun : Phase.idle ≠ .answered (some raw))
      simpa only [Replicated.replication, Replicated.received, Function.update_self] using idle
    · simpa only [Replicated.replication, Replicated.received,
        Function.update_of_ne same] using replicates.mirrored other
  recorded other r found := Int.le_trans (replicates.recorded other r found) (received_forward replicates other)
  committed other member follower :=
    Int.le_trans (replicates.committed other member follower) (received_forward replicates other)

theorem received_current {other : Int} {m : Nat} {off : Int} (current : s.Current other m off) :
    (s.received id records).Current other m off := by
  obtain ⟨early, stands⟩ := current
  by_cases same : other = id
  · subst same
    simp only [Replicated.Current, Replicated.received, Function.update_self]
    exact ⟨by omega, fun now => by omega⟩
  · simpa only [Replicated.Current, Replicated.received, Function.update_of_ne same] using ⟨early, stands⟩

theorem received_own (replicates : Replicates s) (u : Work) (own : u.Own s) :
    u.Own (s.received id records) := by
  cases u with
  | handle other m off t =>
    exact ⟨own.1, Int.le_trans own.2.1 (received_forward replicates other), received_current own.2.2⟩
  | readLEO other m off => exact received_current own
  | find other m off maxVisible => exact received_current own
  | answer other m records' =>
    obtain ⟨early, mirrored⟩ := own
    by_cases same : other = id
    · subst same
      simp only [Work.Own, Replicated.received, Function.update_self]
      exact ⟨by omega, fun now => by omega⟩
    · simpa only [Work.Own, Replicated.replication, Replicated.received, Function.update_of_ne same] using
        ⟨early, mirrored⟩
  | _ => exact own

end Received

section Asked

variable {snappy : Bytes → Option Bytes} {s : Replicated} {id : Int}

theorem asked_own (u : Work) (own : u.Own s) :
    u.Own { s with awaited := Function.update s.awaited id (s.awaited id + 1) } := by
  have early : ∀ {other : Int} {m : Nat} {p : Prop}, m ≤ s.awaited other ∧ (s.awaited other = m → p) →
      m ≤ Function.update s.awaited id (s.awaited id + 1) other ∧
        (Function.update s.awaited id (s.awaited id + 1) other = m → p) := by
    intro other m p before
    by_cases same : other = id
    · subst same
      rw [Function.update_self]
      exact ⟨by omega, fun now => by omega⟩
    · rwa [Function.update_of_ne same]
  cases u with
  | handle other m off t => exact ⟨own.1, own.2.1, early own.2.2⟩
  | readLEO | find | answer => exact early own
  | _ => exact own

end Asked

/-! ### All runs -/

theorem start_replicates {s : Replicated} (start : s.Start) : Replicates s where
  mirrored id := by
    obtain ⟨config, positive, fresh⟩ := start.followers id
    refine start_mirrored ⟨start.log, config, id, positive, ?_⟩
    show { s.fetchers id with phase := Phase.idle } = _
    rw [fresh]
    rfl
  recorded id r found := by
    rw [start.leader.replicaLEO] at found
    cases found
  committed id member follower := by
    rw [start.leader.isr] at member
    exact absurd (List.mem_singleton.mp member) follower

theorem leads_several {t : Task} (leads : Leads t) : ¬ t.addsOnce := by
  cases t <;> first | exact id | exact leads.elim

theorem serves_several {id off : Int} {t : Task} (serves : Serves id off t) : ¬ t.addsOnce := by
  cases t <;> first | exact fun once => once | exact serves.elim

section Runs

variable {snappy : Bytes → Option Bytes} {env : Env} {s s' : Replicated} {w w' : Work} {c : Config Replicated Work}

theorem acts_appends (acts : Acts snappy env s w s' w') (sound : w.sound s env = true)
    (decoded : ∀ t d, w.task = some t → t.produce = some d → Decoded snappy d) (own : w.Own s) :
    Appends snappy s.leader s'.leader := by
  cases acts with
  | led room moves => exact led_appends moves room (fun d => decoded _ d rfl) sound
  | handled room moves => exact served_appends moves own.1
  | _ => exact Or.inl ⟨rfl, rfl⟩

/-- One step keeps the invariant, the assertion of its own goroutine and those of the others. -/
theorem acts_replicates (acts : Acts snappy env s w s' w') (sound : w.sound s env = true) (low : 0 ≤ s.leader.ps.hwm)
    (decoded : ∀ t d, w.task = some t → t.produce = some d → Decoded snappy d) (replicates : Replicates s)
    (own : w.Own s) :
    Replicates s' ∧ w'.Own s' ∧ ∀ u : Work, u.Own s → u.Own s' := by
  have appends := acts_appends acts sound decoded own
  cases acts with
  | @led t t' leader room moves =>
    refine ⟨led_replicates moves (leads_several own) low appends ?_ ?_ replicates, trans_leads (step_trans moves),
      led_own appends⟩
    · rintro follower upto rfl
      exact own.elim
    · rintro snap r todo changed rfl joins
      simpa only [Work.sound, joins, Bool.not_true, Bool.false_or] using sound
  | @handled id n off t t' leader room moves =>
    obtain ⟨serves, reported, current⟩ := own
    refine ⟨led_replicates moves (serves_several serves) low appends ?_ ?_ replicates,
      ⟨step_serves moves serves, reported, current⟩, led_own appends⟩
    · rintro follower upto rfl
      obtain ⟨rfl, rfl⟩ := serves
      exact reported
    · rintro snap r todo changed rfl joins
      exact serves.elim
  | asked id =>
    refine ⟨⟨replicates.mirrored, replicates.recorded, replicates.committed⟩, ?_, asked_own⟩
    exact ⟨⟨rfl, rfl⟩, Int.le_refl _, (Function.update_self id _ s.awaited).ge, fun _ => rfl⟩
  | counted id n off => exact ⟨replicates, own.2.2, fun _ old => old⟩
  | read id n off => exact ⟨replicates, own, fun _ old => old⟩
  | found id n off maxVisible =>
    refine ⟨replicates, ⟨own.1, fun current => ?_⟩, fun _ old => old⟩
    obtain ⟨layout, copy, next, kept, rest, mirrors⟩ := replicates.mirrored id
    simp only [Work.sound, current, ne_eq, not_true_eq_false, decide_false, Bool.false_or, Bool.or_eq_true,
      decide_eq_true_eq] at sound
    obtain rfl := own.2 current
    exact ⟨layout, copy, next, kept, rest, serve_mirrored mirrors maxVisible sound⟩
  | @received id n records current =>
    subst current
    have fits : records.all countFits = true := by
      simpa only [Work.sound, ne_eq, not_true_eq_false, decide_false, Bool.false_or] using sound
    exact ⟨received_replicates replicates (own.2 rfl) fits, trivial, received_own replicates⟩
  | dropped | consumes | visible => exact ⟨replicates, trivial, fun _ old => old⟩

theorem run_replicates (reached : Reachable (replicatedSystem snappy) Sound c) :
    Replicates c.shared ∧ ∀ w ∈ c.tasks, w.Own c.shared := by
  refine reachable_local Replicates (fun s w => w.Own s) (fun s start => start_replicates start) ?_ ?_ reached
  · intro s w _ new
    cases new <;> trivial
  · intro c i env w s' w' before at_i permitted moves replicates own
    obtain ⟨kept, next, others⟩ := acts_replicates (system_acts moves).2 (permitted w at_i)
      (run_ordered (leader_run before)).1.low (run_decoded before (List.mem_of_getElem? at_i)) replicates own
    exact ⟨kept, next, fun u _ => others u⟩

end Runs

/-- In every state that any interleaving reaches, with any requests and answers lost and any handler overtaken by
later ones: the log of every follower in the in-sync set is the leader's log up to some batch, and has every record
below the high watermark. -/
theorem insync_replicated (snappy : Bytes → Option Bytes) (c : Config Replicated Work)
    (reached : Reachable (replicatedSystem snappy) Sound c) :
    ∀ id ∈ c.shared.leader.ps.isr, id ≠ c.shared.leader.ps.leaderBrokerID →
      ∃ stored rest, (c.shared.fetchers id).commitLog.content = bytesOf stored ∧
        c.shared.leader.log.content = bytesOf (stored ++ rest) ∧
        c.shared.leader.ps.hwm ≤ ((stored.map (fun f => f.count)).sum : Nat) := by
  intro id member follower
  have replicates := (run_replicates reached).1
  obtain ⟨layout, copy, next, kept, rest, mirrors⟩ := replicates.mirrored id
  obtain ⟨leader, _⟩ := linked_content mirrors.leader.linked
  obtain ⟨content, chain⟩ := linked_content mirrors.follower.linked
  have bound := replicates.committed id member follower
  have offset : (c.shared.fetchers id).fetchOffset = kept := mirrors.offset
  have count := chained_count chain
  refine ⟨copy.flatten, rest, content, ?_, ?_⟩
  · rw [mirrors.whole] at leader
    exact leader
  · omega

def newReplicated : Replicated where
  leader := newPartition 1 [1, 2] [1] none
  fetchers id := newReplicaFetcher id (newCommitLog ⟨1000, 4096⟩ [])
  awaited _ := 0

theorem newReplicated_start : newReplicated.Start where
  leader := newPartition_assigned 1 [1, 2] none
  leads := rfl
  log := ⟨_, .empty _ (by decide) (by decide)⟩
  followers id := ⟨_, by decide, rfl⟩

/-- Follower 2 fetches from the empty log and joins. A batch is stored and waits. The follower fetches it, and its next
fetch completes the batch; then a consumer reads it. -/
def replicatedRun : List (Event Work Env) :=
  .spawn (.fetch 2) :: .spawn (.leading (.tick 10)) :: .spawn (.leading (.arrive ⟨-1, some (soloBatch 7 0 0)⟩)) ::
    .spawn (.fetch 2) :: .spawn (.fetch 2) :: .spawn (.consume 0 1000) ::
    (List.replicate 3 (.act 0 calm) ++ List.replicate 8 (.act 1 calm) ++ List.replicate 9 (.act 2 calm) ++
      List.replicate 7 (.act 3 calm) ++ List.replicate 4 (.act 4 calm) ++ [.act 2 calm] ++ List.replicate 2
        (.act 5 calm))

theorem replicatedRun_spawns (w : Work) (member : .spawn w ∈ replicatedRun) : Started w := by
  simp only [replicatedRun, List.mem_cons, List.mem_append, List.mem_replicate, Event.spawn.injEq,
    reduceCtorEq, and_false, List.not_mem_nil, or_false] at member
  rcases member with rfl | rfl | rfl | rfl | rfl | rfl
  · exact .fetch 2 rfl
  · exact .tick 10
  · exact .produce _
  · exact .fetch 2 rfl
  · exact .fetch 2 rfl
  · exact .consume 0 1000

theorem insync_replicated_joined : ∃ c, Reachable (replicatedSystem fun _ => none) Sound c ∧
    2 ∈ c.shared.leader.ps.isr ∧ c.shared.leader.ps.hwm = 1 ∧
    ∃ stored rest, (c.shared.fetchers 2).commitLog.content = bytesOf stored ∧
      c.shared.leader.log.content = bytesOf (stored ++ rest) ∧
        (1 : Int) ≤ ((stored.map (fun f => f.count)).sum : Nat) := by
  obtain ⟨c, reached, joined⟩ := exec_reaches (replicatedSystem fun _ => none)
    (checkTask_atTask fun s w env => w.sound s env)
    replicatedRun
    (fun c => decide (2 ∈ c.shared.leader.ps.isr ∧ 2 ≠ c.shared.leader.ps.leaderBrokerID ∧ c.shared.leader.ps.hwm = 1))
    newReplicated_start replicatedRun_spawns (by decide +kernel)
  obtain ⟨member, follower, hwm⟩ := of_decide_eq_true joined
  obtain ⟨stored, rest, copy, whole, bound⟩ := insync_replicated (fun _ => none) c reached 2 member follower
  exact ⟨c, reached, member, hwm, stored, rest, copy, whole, hwm ▸ bound⟩

end KafGo.Server
