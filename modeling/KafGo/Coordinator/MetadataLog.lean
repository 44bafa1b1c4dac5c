import KafGo.Coordinator.PartitionState
import KafGo.Coordinator.PidManager
import KafGo.Protocol.MetadataBatch
import KafGo.Protocol.MetadataValue
import KafGo.Storage.Contiguous
import KafGo.Storage.Region

/-!
# The metadata log

`Append` wraps a value into a batch of one record, `Replay` hands the values back when a broker starts. The region that
`Replay` asks for lies in one segment, so it returns what the first segment holds.
-/

namespace KafGo.Coordinator
open Lib Protocol Storage

structure MetadataLog where
  commitLog : Option CommitLog
  ps : Option PartitionState

def newMetadataLog : MetadataLog := ⟨none, none⟩

inductive ReplayError where
  | log (e : LogError)
  | read
  | panics
  deriving DecidableEq, Repr

namespace MetadataLog

def init (m : MetadataLog) (cl : CommitLog) : MetadataLog := { m with commitLog := some cl }

def setPartitionState (m : MetadataLog) (ps : PartitionState) : MetadataLog := { m with ps := some ps }

def newestOffset (m : MetadataLog) : Int :=
  match m.commitLog with
  | none => 0
  | some cl => if cl.newestOffset < 0 then 0 else cl.newestOffset + 1

/-- Without a commit log the value is dropped and there is no error. -/
def append (m : MetadataLog) (now : Int) (value : Bytes) : MetadataLog × Option LogError :=
  match m.commitLog with
  | none => (m, none)
  | some cl => match cl.appendRaw (encodeAsRecordBatch now value) 1 with
    | (cl, .error e) => ({ m with commitLog := some cl }, some e)
    | (cl, .ok baseOffset) =>
      (⟨some cl, m.ps.map fun ps => (ps.onLeaderAppend baseOffset).advanceHWM⟩, none)

def replay (m : MetadataLog) : Except ReplayError (List Bytes) :=
  match m.commitLog with
  | none => .ok []
  | some cl => match cl.findRecords 0 (2 ^ 63 - 1) with
    | .error e => .error (.log e)
    | .ok none => .ok []
    | .ok (some region) => match readAt region.file region.fileOffset region.size.toNat with
      | none => .error .read
      | some raw => match decodeRecordValues raw with
        | .error _ => .error .panics
        | .ok values => .ok values

end MetadataLog

def leaseOf : Option MetadataValue → Option ProducerIdsRecord
  | some (.producerIds brokerId brokerEpoch nextProducerId) => some ⟨brokerId, brokerEpoch, nextProducerId⟩
  | some (.broker ..) => none
  | some (.topic ..) => none
  | some (.partition ..) => none
  | none => none

/-- The leases among the values; `none` if decoding one of the values panics. -/
def leasesIn : List Bytes → Option (List ProducerIdsRecord)
  | [] => some []
  | value :: values => do
    let record ← MetadataValue.decode value
    let leases ← leasesIn values
    return (leaseOf record).toList ++ leases

/-- `recoverPidManager`. A replay that fails is only logged. -/
def MetadataLog.recoverPids (m : MetadataLog) (brokerID brokerEpoch : Int) : Option PidManager :=
  match m.replay with
  | .ok values => (leasesIn values).map fun leases => recoverPidManager leases brokerID brokerEpoch
  | .error .panics => none
  | .error (.log _) => some (recoverPidManager [] brokerID brokerEpoch)
  | .error .read => some (recoverPidManager [] brokerID brokerEpoch)

def ProducerIdsRecord.encode (r : ProducerIdsRecord) : Bytes :=
  MetadataValue.encode (.producerIds r.brokerId r.brokerEpoch r.nextProducerId)

structure ProducerIdsRecord.Fits (r : ProducerIdsRecord) : Prop where
  brokerId : -2 ^ 31 ≤ r.brokerId ∧ r.brokerId < 2 ^ 31
  brokerEpoch : -2 ^ 63 ≤ r.brokerEpoch ∧ r.brokerEpoch < 2 ^ 63
  nextProducerId : -2 ^ 63 ≤ r.nextProducerId ∧ r.nextProducerId < 2 ^ 63

/-- An append, or a restart that opens the directory of the log again. -/
inductive MetadataCall where
  | append (now : Int) (value : Bytes)
  | restart (config : CommitLogConfig) (positive : 0 < config.segmentMaxBytes) (ps : PartitionState)

structure MetadataSession where
  log : MetadataLog
  appended : List Bytes

namespace MetadataSession

def call (s : MetadataSession) : MetadataCall → MetadataSession
  | .append now value =>
    let (log, err) := s.log.append now value
    ⟨log, if err.isNone then s.appended ++ [value] else s.appended⟩
  | .restart config _ ps => match s.log.commitLog with
    | none => s
    | some cl => { s with log := (newMetadataLog.init (newCommitLog config cl.close)).setPartitionState ps }

def calls (s : MetadataSession) (calls : List MetadataCall) : MetadataSession := calls.foldl call s

def OneSegment (s : MetadataSession) : Prop := ∀ cl ∈ s.log.commitLog, ∀ seg ∈ cl.segments.tail, seg.logFile = []

instance (s : MetadataSession) : Decidable s.OneSegment := by
  unfold OneSegment
  infer_instance

end MetadataSession

def newMetadataSession (config : CommitLogConfig) (ps : PartitionState) : MetadataSession :=
  ⟨(newMetadataLog.init (newCommitLog config [])).setPartitionState ps, []⟩

def valuesOf : List MetadataCall → List Bytes
  | [] => []
  | .append _ value :: calls => value :: valuesOf calls
  | .restart .. :: calls => valuesOf calls

def Plain (value : Bytes) : Prop := value ≠ [] ∧ value.length < 2 ^ 31 - 100

instance (value : Bytes) : Decidable (Plain value) := inferInstanceAs (Decidable (_ ∧ _))

structure Holding (s : MetadataSession) (cl : CommitLog) (layout : List (List StoredBatch)) : Prop where
  log : s.log.commitLog = some cl
  holds : cl.Holds layout s.appended.length
  carry : List.Forall₂ Carries layout.flatten s.appended

variable {s : MetadataSession} {cl : CommitLog} {layout : List (List StoredBatch)} {values : List Bytes}

theorem append_holding (holding : Holding s cl layout) (now : Int) {value : Bytes} (plain : Plain value)
    (fits : s.appended.length + 1 < 2 ^ 63) :
    ∃ cl' layout', Holding (s.call (.append now value)) cl' layout' ∧
      (s.call (.append now value)).appended = s.appended ++ [value] := by
  obtain ⟨cl', appended, held, _⟩ := append_batch_holds holding.holds (metadataBatch now value plain.2) fits
  have appended : cl.appendRaw (encodeAsRecordBatch now value) 1 = (cl', .ok (s.appended.length : Int)) := appended
  have after : s.call (.append now value) = ⟨⟨some cl', s.log.ps.map fun ps =>
      (ps.onLeaderAppend s.appended.length).advanceHWM⟩, s.appended ++ [value]⟩ := by
    simp only [MetadataSession.call, MetadataLog.append, holding.log, appended, Option.isNone_none, ↓reduceIte]
  rw [after]
  refine ⟨cl', placed cl layout [(metadataBatch now value plain.2).storedAt s.appended.length fits], ⟨rfl, ?_, ?_⟩, rfl⟩
  · rw [List.length_append]
    exact held
  · rw [flatten_placed]
    exact List.rel_append holding.carry (.cons (metadataBatch_carries now plain.1 plain.2 fits) .nil)

theorem restart_holding (holding : Holding s cl layout) (config : CommitLogConfig)
    (positive : 0 < config.segmentMaxBytes) (ps : PartitionState) :
    ∃ cl', Holding (s.call (.restart config positive ps)) cl' layout ∧
      (s.call (.restart config positive ps)).appended = s.appended := by
  have opened := reopen_holds holding.holds positive Segment.close (fun _ => rfl) (fun _ => rfl)
    fun s _ => close_whole s.offsetIndex
  have after : s.call (.restart config positive ps) =
      { s with log := (newMetadataLog.init (newCommitLog config cl.close)).setPartitionState ps } := by
    simp only [MetadataSession.call, holding.log]
  rw [after]
  exact ⟨_, ⟨rfl, opened, holding.carry⟩, rfl⟩

theorem calls_holding (calls : List MetadataCall) (holding : Holding s cl layout)
    (plain : ∀ value ∈ valuesOf calls, Plain value) (fits : s.appended.length + (valuesOf calls).length < 2 ^ 63) :
    (∃ cl' layout', Holding (s.calls calls) cl' layout') ∧ (s.calls calls).appended = s.appended ++ valuesOf calls := by
  induction calls generalizing s cl layout with
  | nil => exact ⟨⟨cl, layout, holding⟩, (List.append_nil _).symm⟩
  | cons call calls ih =>
    cases call with
    | append now value =>
      simp only [valuesOf, List.mem_cons, forall_eq_or_imp, List.length_cons] at plain fits
      obtain ⟨cl', layout', next, appended⟩ := append_holding holding now plain.1 (by omega)
      have rest := ih next plain.2 (by rw [appended, List.length_append, List.length_singleton]; omega)
      rw [appended, List.append_assoc] at rest
      exact rest
    | restart config positive ps =>
      obtain ⟨cl', next, appended⟩ := restart_holding holding config positive ps
      have rest := ih next plain (by rw [appended]; exact fits)
      rw [appended] at rest
      exact rest

def batchBytes (values : List Bytes) : Nat := (values.map fun value => 61 + (encodeRecord value).length).sum

theorem length_carried {fs : List StoredBatch} (carry : List.Forall₂ Carries fs values) :
    (bytesOf fs).length = batchBytes values := by
  induction carry with
  | nil => rfl
  | @cons f value fs values carries _ ih =>
    have record := congrArg List.length carries.record
    have long := f.long
    rw [List.length_drop] at record
    rw [bytesOf_cons, List.length_append, ih, batchBytes, batchBytes, List.map_cons, List.sum_cons]
    omega

theorem longestRun_all {lens : List Nat} {size : Int} (longest : LongestRun (2 ^ 63 - 1) lens size)
    (small : lens.sum < 2 ^ 63) : size = lens.sum := by
  obtain ⟨k, _, inside, sum, _, rest⟩ := longest
  have whole : k = lens.length := by
    rcases rest with all | beyond
    · exact all
    · have parts := congrArg List.sum (List.take_append_drop (k + 1) lens)
      rw [List.sum_append] at parts
      omega
  rw [sum, whole, List.take_length]

theorem replay_first {fs : List StoredBatch} (holding : Holding s cl (fs :: layout)) (nonempty : fs ≠ [])
    (few : s.appended.length ≤ 2 ^ 32) (small : batchBytes s.appended < 2 ^ 63) :
    s.log.replay = .ok (s.appended.take fs.length) := by
  obtain ⟨g, post, rfl⟩ := List.exists_cons_of_ne_nil nonempty
  have holds := holding.holds
  have total := holding.carry.length_eq
  rw [List.flatten_cons, List.length_append] at total
  -- The batch `g` holds offset 0 and is the first of the log.
  have chain := (linked_content holds.linked).2
  have first : g.base = 0 := chained_head chain (by simp)
  have batches : ((g :: post) :: layout)[0]? = some ([] ++ g :: post) := rfl
  obtain ⟨_, inside, seg, base, located⟩ := linked_at holds.linked batches (Nat.le_of_eq first)
    (by have := g.positive; omega)
  obtain ⟨last, within⟩ := located.chain
  have start : base = 0 := (chained_head within rfl).symm.trans first
  subst start
  have aim : seg.offsetIndex.lookup (0 : Nat) = (bytesOf []).length := by
    refine lookup_first located.holds within fun h member => ?_
    have bounds := chained_mem chain (f := h) (List.mem_flatten_of_mem List.mem_cons_self member)
    have positive := h.positive
    omega
  have file : seg.logFile = bytesOf (g :: post) ++ [] := by
    rw [List.append_nil]
    exact located.holds.file
  obtain ⟨st, found, position⟩ := findStart_meets file aim (m := []) rfl (fun _ => nofun) located.high
  rw [if_pos (.inl rfl)] at position
  obtain ⟨size, answer, longest⟩ := findRecords_from holds.opened (by rw [holds.next]; omega)
    (by decide : (0 : Int) < 2 ^ 63 - 1)
    located found position rfl
  -- The region is the whole file of the first segment.
  have bytes := length_bytesOf (g :: post)
  have part := length_carried holding.carry
  rw [List.flatten_cons, bytesOf_append, List.length_append] at part
  have whole : size = (bytesOf (g :: post)).length := by
    rw [longestRun_all longest (by omega), bytes]
  have read : readAt seg.logFile (bytesOf ([] ++ [])).length size.toNat = some (bytesOf (g :: post)) := by
    have content : seg.logFile = bytesOf (g :: post) := located.holds.file
    rw [content, whole, Int.toNat_natCast]
    simp [readAt, slice, -bytesOf_cons]
  have values : List.Forall₂ Carries (g :: post) (s.appended.take (g :: post).length) := by
    have taken := List.forall₂_take (g :: post).length holding.carry
    rwa [List.flatten_cons, List.take_left] at taken
  unfold MetadataLog.replay
  rw [holding.log]
  dsimp only
  rw [show (0 : Int) = ((0 : Nat) : Int) from rfl, answer]
  dsimp only
  rw [read]
  dsimp only
  rw [decodeRecordValues_batches values]

theorem replay_holding (holding : Holding s cl layout) (few : s.appended.length ≤ 2 ^ 32)
    (small : batchBytes s.appended < 2 ^ 63) :
    ∃ k ≤ s.appended.length, s.log.replay = .ok (s.appended.take k) ∧
      (k = s.appended.length ↔ ∀ seg ∈ cl.segments.tail, seg.logFile = []) := by
  have total := holding.carry.length_eq
  have linked := holding.holds.linked
  generalize segments : cl.segments = ss at linked
  cases linked with
  | @active _ _ seg fs held chain =>
    rw [List.flatten_cons, List.flatten_nil, List.append_nil] at total
    refine ⟨s.appended.length, Nat.le_refl _, ?_, iff_of_true rfl (by simp)⟩
    by_cases nonempty : fs = []
    · subst nonempty
      have empty : s.appended = [] := List.length_eq_zero_iff.mp total.symm
      have next : cl.nextOffset = 0 := by
        rw [holding.holds.next, empty]
        rfl
      simp only [MetadataLog.replay, holding.log, CommitLog.findRecords, holding.holds.opened, next, empty,
        Bool.false_eq_true, ↓reduceIte, ge_iff_le, Int.le_refl, List.take_nil]
    · rw [← total]
      exact replay_first holding nonempty few small
  | @sealed b m e seg rest fs layout held nonempty chain later =>
    rw [List.flatten_cons, List.length_append] at total
    refine ⟨fs.length, by omega, replay_first holding nonempty few small, ?_⟩
    have content := (linked_content later).1
    have files : (∀ seg' ∈ rest, seg'.logFile = []) ↔ bytesOf layout.flatten = [] := by
      rw [← content, List.flatMap_eq_nil_iff]
    rw [List.tail_cons, files]
    constructor
    · intro all
      have none : layout.flatten = [] := List.length_eq_zero_iff.mp (by omega)
      rw [none, bytesOf_nil]
    · intro empty
      have bound := length_le_bytesOf layout.flatten
      rw [empty, List.length_nil] at bound
      omega

/-! ### Leases -/

theorem leasesIn_cons {value : Bytes} {leases : List ProducerIdsRecord} :
    leasesIn (value :: values) = some leases ↔ ∃ record rest, MetadataValue.decode value = some record ∧
      leasesIn values = some rest ∧ (leaseOf record).toList ++ rest = leases := by
  simp only [leasesIn, Option.bind_eq_bind, Option.bind_eq_some_iff, Option.pure_def, Option.some.injEq]
  constructor
  · rintro ⟨record, decoded, rest, others, same⟩
    exact ⟨record, rest, decoded, others, same⟩
  · rintro ⟨record, rest, decoded, others, same⟩
    exact ⟨record, decoded, rest, others, same⟩

theorem leaseOf_encode {r : ProducerIdsRecord} (fits : r.Fits) :
    ∃ record, MetadataValue.decode r.encode = some record ∧ leaseOf record = some r := by
  refine ⟨_, MetadataValue.decode_producerIds _ _ _, ?_⟩
  have brokerId : wrapSigned 32 r.brokerId = r.brokerId := wrapSigned_fits (by decide) fits.brokerId.1 fits.brokerId.2
  have brokerEpoch : wrapSigned 64 r.brokerEpoch = r.brokerEpoch :=
    wrapSigned_fits (by decide) fits.brokerEpoch.1 fits.brokerEpoch.2
  have nextProducerId : wrapSigned 64 r.nextProducerId = r.nextProducerId :=
    wrapSigned_fits (by decide) fits.nextProducerId.1 fits.nextProducerId.2
  rw [brokerId, brokerEpoch, nextProducerId]
  rfl

theorem leasesIn_mem {leases : List ProducerIdsRecord} (decoded : leasesIn values = some leases)
    {r : ProducerIdsRecord} (fits : r.Fits) (member : r.encode ∈ values) : r ∈ leases := by
  induction values generalizing leases with
  | nil => cases member
  | cons value values ih =>
    obtain ⟨record, rest, here, others, rfl⟩ := leasesIn_cons.mp decoded
    rcases List.mem_cons.mp member with rfl | later
    · obtain ⟨record', read, lease⟩ := leaseOf_encode fits
      obtain rfl := Option.some.inj (here.symm.trans read)
      rw [lease]
      exact List.mem_append_left _ (List.mem_singleton_self r)
    · exact List.mem_append_right _ (ih others later)

theorem leasesIn_some (decodes : ∀ value ∈ values, MetadataValue.decode value ≠ none) :
    ∃ leases, leasesIn values = some leases := by
  induction values with
  | nil => exact ⟨[], rfl⟩
  | cons value values ih =>
    obtain ⟨record, here⟩ := Option.ne_none_iff_exists'.mp (decodes value List.mem_cons_self)
    obtain ⟨rest, others⟩ := ih fun v member => decodes v (List.mem_cons_of_mem _ member)
    exact ⟨_, leasesIn_cons.mpr ⟨record, rest, here, others, rfl⟩⟩

theorem recoverPids_above {m : MetadataLog} (replayed : m.replay = .ok values)
    (decodes : ∀ value ∈ values, MetadataValue.decode value ≠ none) (brokerID brokerEpoch : Int) :
    ∃ manager, m.recoverPids brokerID brokerEpoch = some manager ∧
      ∀ r : ProducerIdsRecord, r.Fits → r.encode ∈ values → r.nextProducerId ≤ manager.nextBase := by
  obtain ⟨leases, decoded⟩ := leasesIn_some decodes
  refine ⟨recoverPidManager leases brokerID brokerEpoch, ?_, ?_⟩
  · simp only [MetadataLog.recoverPids, replayed, decoded, Option.map_some]
  · intro r fits member
    have below := le_maxSeen (leasesIn_mem decoded fits member)
    have base : maxSeen leases ≤ (recoverPidManager leases brokerID brokerEpoch).nextBase := by
      have nonneg := (maxSeen_logged leases).1
      simp only [recoverPidManager, PidManager.configure]
      split
      · simp only [PidManager.seedFromLog]
        split
        · exact Int.le_refl _
        · omega
      · show maxSeen leases ≤ 0
        omega
    omega

def lease (nextProducerId : Int) : ProducerIdsRecord := ⟨1, 0, nextProducerId⟩

def leaseCall (nextProducerId : Int) : MetadataCall := .append 0 (lease nextProducerId).encode

def soleState : PartitionState := ⟨1, [1], [1], 0, 0, fun _ => none, fun _ => none⟩

end KafGo.Coordinator
