import KafGo.Server.Replicated

/-!
# Acknowledged and consumed records are replicated

A batch acknowledged with acks=-1 is in the log of every follower that is in sync, at the same offset, as long as it is.
So is every batch that a consumer has read.
-/

namespace KafGo.Server
open Lib Coordinator Protocol Storage Partition

def Has (log : CommitLog) (f : StoredBatch) : Prop := ∃ stored, log.content = bytesOf stored ∧ f ∈ stored

/-- The batches at the end of the log are those that were appended, in their order. -/
def Logged (s : Leader) : Prop :=
  ∃ old new, s.log.content = bytesOf (old ++ new) ∧ List.Forall₂ (fun f e => Stores f (e.1.raw, e.2)) new s.stored

/-- A retry with acks=-1 that a ring recognises comes when its batch is committed. -/
def Work.patient (s : Replicated) (w : Work) : Bool := w.task.all fun t => t.retryCommitted s.leader

/-- The positions in an index address every byte of their file. -/
def Work.addressed (s : Replicated) : Work → Bool
  | .findVisible .. => s.leader.log.segments.all fun seg => decide (seg.logFile.length < 2 ^ 32)
  | _ => true

def Patient : Condition Replicated Work Env := atTask fun s w env => (w.sound s env && w.patient s) = true

def Addressed : Condition Replicated Work Env := atTask fun s w env => (w.sound s env && w.addressed s) = true

section Log

variable {snappy : Bytes → Option Bytes} {s : Replicated} {leader leader' : Leader} {layout : List (List StoredBatch)}
  {next : Nat}

theorem appends_has (holds : leader.log.Holds layout next) (appends : Appends snappy leader leader') {f : StoredBatch}
    (has : Has leader.log f) : Has leader'.log f := by
  rcases appends with ⟨same, _⟩ | ⟨d, b, appended⟩
  · rwa [same]
  · have offset := holds.next
    have room := appended.room
    obtain ⟨log, grown, held, _⟩ := append_batch_holds holds b (by omega)
    obtain ⟨stored, content, member⟩ := has
    obtain rfl := bytesOf_injective (content.symm.trans (linked_content holds.linked).1)
    rw [appended.log, grown]
    exact ⟨_, (linked_content held.linked).1, by rw [flatten_placed]; exact List.mem_append_left _ member⟩

theorem appends_logged (holds : leader.log.Holds layout next) (appends : Appends snappy leader leader')
    (logged : Logged leader) : Logged leader' := by
  unfold Logged
  rcases appends with ⟨log, stored⟩ | ⟨d, b, appended⟩
  · rw [log, stored]
    exact logged
  · have inside : next + b.count < 2 ^ 63 := by
      have offset := holds.next
      have room := appended.room
      omega
    obtain ⟨log, grown, held, _⟩ := append_batch_holds holds b inside
    obtain ⟨old, new, content, stores⟩ := logged
    have whole := bytesOf_injective (content.symm.trans (linked_content holds.linked).1)
    rw [appended.log, appended.stored log next grown, grown]
    refine ⟨old, new ++ [b.storedAt next inside], ?_, List.rel_append stores (.cons ⟨?_, rfl, ?_⟩ .nil)⟩
    · rw [← List.append_assoc, whole, ← flatten_placed]
      exact (linked_content held.linked).1
    · exact congrArg (putBaseOffset next) appended.data
    · have records : (d.count : Int) = int32At d.raw batchRecordCountOff := (decodeRecordBatch_ok appended.decoded).2
      rw [← records, ← appended.count]
      rfl

theorem replicates_has (replicates : Replicates s) {f : StoredBatch} (has : Has s.leader.log f)
    (below : (f.base + f.count : Int) ≤ s.leader.ps.hwm) {id : Int} (member : id ∈ s.leader.ps.isr)
    (follower : id ≠ s.leader.ps.leaderBrokerID) : Has (s.fetchers id).commitLog f := by
  obtain ⟨layout, copy, next, kept, rest, mirrors⟩ := replicates.mirrored id
  obtain ⟨stored, content, inside⟩ := has
  obtain ⟨whole, chained⟩ := linked_content mirrors.leader.linked
  obtain ⟨copied, chain⟩ := linked_content mirrors.follower.linked
  obtain rfl := bytesOf_injective (content.symm.trans whole)
  refine ⟨copy.flatten, copied, ?_⟩
  rw [mirrors.whole] at inside chained
  rcases List.mem_append.mp inside with early | late
  · exact early
  · obtain ⟨m, first, behind⟩ := chained_append.mp chained
    obtain rfl := chained_unique first chain
    have bound := (chained_mem behind late).1
    have positive := f.positive
    have offset : (s.fetchers id).fetchOffset = m := mirrors.offset
    have committed := replicates.committed id member follower
    omega

theorem holds_leader (replicates : Replicates s) : ∃ layout next, s.leader.log.Holds layout next := by
  obtain ⟨layout, copy, next, kept, rest, mirrors⟩ := replicates.mirrored 0
  exact ⟨layout, next, mirrors.leader⟩

end Log

section Runs

variable {snappy : Bytes → Option Bytes} {c : Config Replicated Work}

theorem and_sound {p : Replicated → Work → Bool}
    (reached : Reachable (replicatedSystem snappy) (atTask fun s w env => (w.sound s env && p s w) = true) c) :
    Reachable (replicatedSystem snappy) Sound c :=
  reachable_mono (fun _ _ _ permitted w at_i => (Bool.and_eq_true_iff.mp (permitted w at_i)).1) reached

theorem run_appends (before : Reachable (replicatedSystem snappy) Sound c) {i : Nat} {env : Env} {w w' : Work}
    {s' : Replicated} (at_i : c.tasks[i]? = some w) (sound : w.sound c.shared env = true)
    (acts : Acts snappy env c.shared w s' w') : Appends snappy c.shared.leader s'.leader :=
  have member := List.mem_of_getElem? at_i
  acts_appends acts sound (run_decoded before member) ((run_replicates before).2 w member)

theorem run_logged (reached : Reachable (replicatedSystem snappy) Sound c) : Logged c.shared.leader := by
  refine (reachable_local (fun s => Logged s.leader) (fun _ _ => True) ?_ (fun _ _ _ _ => trivial) ?_ reached).1
  · intro s start
    obtain ⟨layout, built⟩ := start.log
    obtain ⟨next, holds⟩ := built_holds built
    refine ⟨layout.flatten, [], ?_, ?_⟩
    · rw [List.append_nil]
      exact (linked_content holds.linked).1
    · rw [start.leader.fresh.stored]
      exact .nil
  · intro c i env w s' w' before at_i permitted moves logged _
    obtain ⟨layout, next, holds⟩ := holds_leader (run_replicates before).1
    have appends := run_appends before at_i (permitted w at_i) (system_acts moves).2
    exact ⟨appends_logged holds appends logged, trivial, fun _ _ _ => trivial⟩

theorem stores_mem {new : List StoredBatch} {stored : List (Produce × Int)}
    (stores : List.Forall₂ (fun f e => Stores f (e.1.raw, e.2)) new stored) {e : Produce × Int} (member : e ∈ stored) :
    ∃ f ∈ new, Stores f (e.1.raw, e.2) := by
  induction stores with
  | nil => cases member
  | @cons f _ new stored here _ ih =>
    rcases List.mem_cons.mp member with rfl | later
    · exact ⟨f, List.mem_cons_self, here⟩
    · obtain ⟨g, inside, found⟩ := ih later
      exact ⟨g, List.mem_cons_of_mem _ inside, found⟩

theorem patient_committed (reached : Reachable (replicatedSystem snappy) Patient c) {d : Produce} {r : PartitionResult}
    (answered : Work.leading (.answered d r) ∈ c.tasks) (acks : d.acks = ackExactlyOnce) (success : r.errorCode = 0) :
    d.lastOffset r.baseOffset < c.shared.leader.ps.hwm := by
  have leads : Reachable (leaderSystem snappy) RetriesCommitted ⟨c.shared.leader, c.tasks.filterMap Work.task⟩ := by
    refine reachable_mono ?_ (leader_reached (p := fun s t _ => t.retryCommitted s = true) ?_ reached)
    · intro c i env permitted
      unfold RetriesCommitted retriesCommitted
      cases found : c.tasks[i]? with
      | none => rfl
      | some t => exact permitted t found
    · intro c i env w t permitted at_i view
      have patient := (Bool.and_eq_true_iff.mp (permitted w at_i)).2
      simpa only [Work.patient, view, Option.all_some] using patient
  exact ((run_committed leads).2 _ (List.mem_filterMap.mpr ⟨_, answered, rfl⟩)).2 acks success

/-- In every run in which retries come late enough: a batch acknowledged with acks=-1 is stored at the offset of the
answer, and every follower that is in sync, then or later, has it there. The batch is the one of the request, or the one
that the request repeats. -/
theorem acked_replicated (snappy : Bytes → Option Bytes) (c : Config Replicated Work)
    (reached : Reachable (replicatedSystem snappy) Patient c) (d : Produce) (r : PartitionResult)
    (answered : Work.leading (.answered d r) ∈ c.tasks) (acks : d.acks = ackExactlyOnce) (success : r.errorCode = 0) :
    ∃ (d' : Produce) (f : StoredBatch), (d' = d ∨ d.Repeats d') ∧ f.data = putBaseOffset r.baseOffset d'.raw ∧
      (f.base : Int) = r.baseOffset ∧ f.count = d.count ∧ Has c.shared.leader.log f ∧
      ∀ id ∈ c.shared.leader.ps.isr, id ≠ c.shared.leader.ps.leaderBrokerID →
        Has (c.shared.fetchers id).commitLog f := by
  have sound := and_sound reached
  obtain ⟨keeps, tasks⟩ := run_backed (leader_run reached)
  obtain ⟨backed, decoded⟩ := tasks _ (List.mem_filterMap.mpr ⟨_, answered, rfl⟩)
  obtain ⟨d', member, same⟩ := backed (by rw [acks]; decide) success
  have count : d'.count = d.count := by
    rcases same with rfl | repeats
    · rfl
    · exact repeats_count (decoded d rfl) (keeps.stored _ member) repeats
  obtain ⟨old, new, content, stores⟩ := run_logged sound
  obtain ⟨f, inside, data, base, records⟩ := stores_mem stores member
  have total : (d'.count : Int) = int32At d'.raw batchRecordCountOff := (decodeRecordBatch_ok (keeps.stored _ member)).2
  have has : Has c.shared.leader.log f := ⟨old ++ new, content, List.mem_append_right _ inside⟩
  have below := patient_committed reached answered acks success
  unfold Produce.lastOffset at below
  dsimp only at base records
  refine ⟨d', f, same, data, base, by omega, has, fun id insync follower => ?_⟩
  exact replicates_has (run_replicates sound).1 has (by omega) insync follower

def joined (s : Replicated) : Prop := 2 ∈ s.leader.ps.isr ∧ 2 ≠ s.leader.ps.leaderBrokerID
  deriving Decidable

def batchAnswered (c : Config Replicated Work) : Bool :=
  match (c.tasks[2]? : Option Work) with
  | some (.leading (.answered d r)) => decide (d.acks = ackExactlyOnce ∧ r.errorCode = 0 ∧ joined c.shared)
  | _ => false

theorem acked_replicated_one : ∃ c d r, Reachable (replicatedSystem fun _ => none) Patient c ∧
    c.tasks[2]? = some (.leading (.answered d r)) ∧ 2 ∈ c.shared.leader.ps.isr ∧
    ∃ f, (f.base : Int) = r.baseOffset ∧ Has (c.shared.fetchers 2).commitLog f := by
  obtain ⟨c, reached, ends⟩ := exec_reaches (replicatedSystem fun _ => none)
    (checkTask_atTask fun s w env => w.sound s env && w.patient s) replicatedRun
    batchAnswered newReplicated_start replicatedRun_spawns (by decide +kernel)
  unfold batchAnswered at ends
  split at ends
  · rename_i d r found
    obtain ⟨acks, success, insync, follower⟩ := of_decide_eq_true ends
    obtain ⟨_, f, _, _, base, _, _, copies⟩ :=
      acked_replicated (fun _ => none) c reached d r (List.mem_of_getElem? found) acks success
    exact ⟨c, d, r, reached, found, insync, f, base, copies 2 insync follower⟩
  · cases ends

end Runs

/-! ### What consumers read -/

/-- A consumer that is still to read has seen the high watermark; one that has read got batches below it. -/
def Work.Shown (s : Replicated) : Work → Prop
  | .findVisible _ _ hwm => hwm ≤ s.leader.ps.hwm
  | .consumed (some raw) => ∃ lead, raw = bytesOf lead ∧
      ∀ f ∈ lead, Has s.leader.log f ∧ (f.base + f.count : Int) ≤ s.leader.ps.hwm
  | _ => True

section Consumed

variable {snappy : Bytes → Option Bytes} {c : Config Replicated Work}

theorem acts_hwm {env : Env} {s s' : Replicated} {w w' : Work} (acts : Acts snappy env s w s' w')
    (ordered : Ordered s.leader.ps s.leader.log.nextOffset)
    (published : ∀ t, w.task = some t → t.Published s.leader.log.nextOffset) : s.leader.ps.hwm ≤ s'.leader.ps.hwm := by
  have led : ∀ {t t' : Task} {leader : Leader}, w.task = some t →
    Partition.step snappy env s.leader t = some (leader, t') →
      s.leader.ps.hwm ≤ leader.ps.hwm := by
    intro t t' leader view moves
    have rule := step_trans moves
    exact (change_ordered (trans_ps rule) (trans_nextOffset_le rule) ordered (published t view)).2.1
  cases acts with
  | led room moves => exact led rfl moves
  | handled room moves => exact led rfl moves
  | _ => exact Int.le_refl _

theorem shown_stable {s s' : Replicated} (grows : ∀ f, Has s.leader.log f → Has s'.leader.log f)
    (higher : s.leader.ps.hwm ≤ s'.leader.ps.hwm) (w : Work) (shown : w.Shown s) : w.Shown s' := by
  cases w with
  | findVisible off maxBytes hwm => exact Int.le_trans shown higher
  | consumed records =>
    cases records with
    | none => trivial
    | some raw =>
      obtain ⟨lead, bytes, below⟩ := shown
      exact ⟨lead, bytes, fun f member => ⟨grows f (below f member).1, Int.le_trans (below f member).2 higher⟩⟩
  | _ => trivial

theorem whole_unique {reg : RecordsRegion} {fs gs : List StoredBatch} (one : reg.Whole fs) (other : reg.Whole gs) :
    fs = gs := by
  have read : ∀ {fs : List StoredBatch}, reg.Whole fs → reg.bytes = bytesOf fs := by
    intro fs whole
    obtain ⟨before, tail, file, start⟩ := whole.bytes
    exact bytes_batches file start whole.size
  exact bytesOf_injective ((read one).symm.trans (read other))

theorem fetchRecords_shown {log : CommitLog} {layout : List (List StoredBatch)} {next : Nat}
    (holds : log.Holds layout next) (small : ∀ seg ∈ log.segments, seg.logFile.length < 2 ^ 32)
    {off maxBytes bound : Int} {raw : Bytes} (answer : fetchRecords log off maxBytes bound = some raw) :
    ∃ lead, raw = bytesOf lead ∧ ∀ f ∈ lead, Has log f ∧ (f.base + f.count : Int) ≤ bound := by
  have whole := @findRecords_whole log layout next holds small off maxBytes
  obtain ⟨reg, fs, found, is_whole, bytes⟩ :=
    fetchRecords_whole (fun reg found => (whole found).imp fun _ both => both.1) answer
  obtain ⟨gs, same, members⟩ := whole found
  obtain rfl := whole_unique is_whole same
  refine ⟨_, bytes, fun f member =>
    ⟨⟨_, (linked_content holds.linked).1, members f (List.takeWhile_subset _ member)⟩, ?_⟩⟩
  have inside := @visible_records fs bound f member (f.base + f.count - 1) (by omega)
  omega

theorem acts_shown {env : Env} {s s' : Replicated} {w w' : Work} (acts : Acts snappy env s w s' w')
    (addressed : w.addressed s = true) (replicates : Replicates s) (shown : w.Shown s) : w'.Shown s' := by
  cases acts with
  | consumes off maxBytes => exact Int.le_refl _
  | visible off maxBytes hwm =>
    cases answer : fetchRecords s.leader.log off maxBytes hwm with
    | none => trivial
    | some raw =>
      obtain ⟨layout, next, holds⟩ := holds_leader replicates
      have small : ∀ seg ∈ s.leader.log.segments, seg.logFile.length < 2 ^ 32 := by
        simpa only [Work.addressed, List.all_eq_true, decide_eq_true_eq] using addressed
      obtain ⟨lead, bytes, below⟩ := fetchRecords_shown holds small answer
      exact ⟨lead, bytes, fun f member => ⟨(below f member).1, Int.le_trans (below f member).2 shown⟩⟩
  | _ => trivial

theorem run_shown (reached : Reachable (replicatedSystem snappy) Addressed c) : ∀ w ∈ c.tasks, w.Shown c.shared := by
  refine (reachable_local (fun _ => True) (fun s w => w.Shown s) (fun _ _ => trivial) ?_ ?_ reached).2
  · intro s w _ new
    cases new <;> trivial
  · intro c i env w s' w' before at_i permitted moves _ shown
    obtain ⟨sound, addressed⟩ := Bool.and_eq_true_iff.mp (permitted w at_i)
    have acts := (system_acts moves).2
    have run := and_sound before
    have replicates := (run_replicates run).1
    obtain ⟨layout, next, holds⟩ := holds_leader replicates
    obtain ⟨ordered, published⟩ := run_ordered (leader_run before)
    have higher := acts_hwm acts ordered fun t view =>
      published t (List.mem_filterMap.mpr ⟨w, List.mem_of_getElem? at_i, view⟩)
    refine ⟨trivial, acts_shown acts addressed replicates shown, fun u _ old => ?_⟩
    exact shown_stable (fun f has => appends_has holds (run_appends run at_i sound acts) has) higher u old

/-- In every run, whatever a consumer has read is a run of whole batches below the high watermark, and every follower
that is in sync, then or later, has each of them. -/
theorem consumed_replicated (snappy : Bytes → Option Bytes) (c : Config Replicated Work)
    (reached : Reachable (replicatedSystem snappy) Addressed c) (raw : Bytes)
    (read : Work.consumed (some raw) ∈ c.tasks) :
    ∃ lead, raw = bytesOf lead ∧ ∀ f ∈ lead, (f.base + f.count : Int) ≤ c.shared.leader.ps.hwm ∧
      ∀ id ∈ c.shared.leader.ps.isr, id ≠ c.shared.leader.ps.leaderBrokerID →
        Has (c.shared.fetchers id).commitLog f := by
  have replicates := (run_replicates (and_sound reached)).1
  obtain ⟨lead, bytes, below⟩ := run_shown reached _ read
  refine ⟨lead, bytes, fun f member => ⟨(below f member).2, fun id insync follower => ?_⟩⟩
  exact replicates_has replicates (below f member).1 (below f member).2 insync follower

def batchConsumed (c : Config Replicated Work) : Bool :=
  match (c.tasks[5]? : Option Work) with
  | some (.consumed (some raw)) => decide (raw.length = 68 ∧ joined c.shared)
  | _ => false

theorem consumed_replicated_one : ∃ c raw, Reachable (replicatedSystem fun _ => none) Addressed c ∧
    c.tasks[5]? = some (.consumed (some raw)) ∧ raw.length = 68 ∧ 2 ∈ c.shared.leader.ps.isr ∧
    ∃ lead, raw = bytesOf lead ∧ ∀ f ∈ lead, Has (c.shared.fetchers 2).commitLog f := by
  obtain ⟨c, reached, ends⟩ := exec_reaches (replicatedSystem fun _ => none)
    (checkTask_atTask fun s w env => w.sound s env && w.addressed s) replicatedRun
    batchConsumed newReplicated_start replicatedRun_spawns (by decide +kernel)
  unfold batchConsumed at ends
  split at ends
  · rename_i raw found
    obtain ⟨length, insync, follower⟩ := of_decide_eq_true ends
    obtain ⟨lead, bytes, copies⟩ := consumed_replicated (fun _ => none) c reached raw (List.mem_of_getElem? found)
    exact ⟨c, raw, reached, found, length, insync, lead, bytes, fun f member => (copies f member).2 2 insync follower⟩
  · cases ends

end Consumed

end KafGo.Server
