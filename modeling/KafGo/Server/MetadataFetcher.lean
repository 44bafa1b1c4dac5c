import KafGo.Lib.Machine
import KafGo.Protocol.MetadataBatch
import KafGo.Server.Fetch

/-!
# Following the metadata log

The controller appends values to its metadata log; a broker polls it, applies the values of each answer and
moves its fetch offset on by the number of records it counted.
-/

namespace KafGo.Server
open Lib Coordinator Protocol Storage

/-- Where an iteration of `fetchLoop` is. `applying` has the values that are still to be applied; `crashed` is a
panic in `DecodeRecordValues`. -/
inductive MetadataPhase where
  | idle
  | asked (maxVisible : Int)
  | answered (records : Option Bytes)
  | applying (records : Bytes) (todo : List Bytes)
  | crashed

structure MetadataFetcher where
  brokerID : Int
  fetchOffset : Int
  applied : List Bytes
  phase : MetadataPhase

def newMetadataFetcher (brokerID : Int) : MetadataFetcher := ⟨brokerID, 0, [], .idle⟩

namespace MetadataFetcher

def receive (mf : MetadataFetcher) (records : Option Bytes) : MetadataFetcher :=
  match records with
  | none => { mf with phase := .idle }
  | some raw =>
    if raw.length = 0 then { mf with phase := .idle }
    else match decodeRecordValues raw with
      | .error _ => { mf with phase := .crashed }
      | .ok values => { mf with phase := .applying raw values }

/-- `if err == nil && recordCount > 0`. -/
def advance (mf : MetadataFetcher) (raw : Bytes) : MetadataFetcher :=
  match countRecordsInRecordBatches raw with
  | .error _ => { mf with phase := .idle }
  | .ok recordCount =>
    if recordCount > 0 then { mf with phase := .idle, fetchOffset := mf.fetchOffset + recordCount }
    else { mf with phase := .idle }

end MetadataFetcher

/-- The metadata log on the controller with the values appended to it, and one broker that follows it. -/
structure Metadata where
  log : CommitLog
  ps : PartitionState
  appended : List Bytes
  fetcher : MetadataFetcher

inductive MetadataAction where
  | append (now : Int) (value : Bytes)
  | publish (lastOffset : Int)
  | request (now : Int)
  | serve
  | lose
  | deliver
  | apply
  | advance

namespace Metadata

def append (s : Metadata) (now : Int) (value : Bytes) : Metadata :=
  match s.log.appendRaw (encodeAsRecordBatch now value) 1 with
  | (log, .error _) => { s with log := log }
  | (log, .ok _) => { s with log := log, appended := s.appended ++ [value] }

def step : MetadataAction → Metadata → Option Metadata
  | .append now value, s => if s.log.nextOffset + 1 < 2 ^ 63 then some (s.append now value) else none
  | .publish lastOffset, s =>
    if lastOffset < s.log.nextOffset then some { s with ps := s.ps.onLeaderAppend lastOffset } else none
  | .request now, s => match s.fetcher.phase with
    | .idle =>
      let ps := seenBy s.ps now s.fetcher.brokerID s.fetcher.fetchOffset
      some { s with ps := ps, fetcher := { s.fetcher with phase := .asked (visibleTo ps s.fetcher.brokerID) } }
    | _ => none
  | .serve, s => match s.fetcher.phase with
    | .asked maxVisible =>
      let records := fetchRecords s.log s.fetcher.fetchOffset partitionMaxBytes maxVisible
      some { s with fetcher := { s.fetcher with phase := .answered records } }
    | _ => none
  | .lose, s => match s.fetcher.phase with
    | .asked _ | .answered _ => some { s with fetcher := { s.fetcher with phase := .idle } }
    | _ => none
  | .deliver, s => match s.fetcher.phase with
    | .answered records => some { s with fetcher := s.fetcher.receive records }
    | _ => none
  | .apply, s => match s.fetcher.phase with
    | .applying raw (value :: todo) =>
      some { s with fetcher := { s.fetcher with applied := s.fetcher.applied ++ [value], phase := .applying raw todo } }
    | _ => none
  | .advance, s => match s.fetcher.phase with
    | .applying raw [] => some { s with fetcher := s.fetcher.advance raw }
    | _ => none

/-- A controller whose log holds the values appended so far, and a broker that starts to follow it. -/
structure Start (s : Metadata) : Prop where
  log : ∃ layout, Built s.log layout ∧ List.Forall₂ Carries layout.flatten s.appended
  fetcher : ∃ brokerID, s.fetcher = newMetadataFetcher brokerID

def machine : Machine Metadata MetadataAction := ⟨Start, step⟩

end Metadata

/-- Values are not empty and fit a batch, and the index leads to the batch at the fetch offset. -/
def MetadataAction.aligned (s : Metadata) : MetadataAction → Bool
  | .append _ value => decide (value ≠ [] ∧ value.length < 2 ^ 31 - 100)
  | .serve => decide (s.log.nextOffset ≤ s.fetcher.fetchOffset) || leadsTo s.log s.fetcher.fetchOffset
  | _ => true

/-! ### The applied values -/

/-- What each phase knows: the values `vs` have been counted, and an answer on its way carries the next ones. -/
def PhaseTracks (applied : List Bytes) (rest : List StoredBatch) (vs ws : List Bytes) : MetadataPhase → Prop
  | .idle | .asked _ | .answered none => applied = vs
  | .answered (some raw) => applied = vs ∧ ∃ lead more, rest = lead ++ more ∧ lead ≠ [] ∧ lead.length < 2 ^ 31 ∧
      raw = bytesOf lead
  | .applying raw todo => ∃ lead more us others, rest = lead ++ more ∧ ws = us ++ others ∧
      List.Forall₂ Carries lead us ∧ lead ≠ [] ∧ lead.length < 2 ^ 31 ∧ raw = bytesOf lead ∧ applied ++ todo = vs ++ us
  | .crashed => False

/-- The batches `stored` have been fetched and counted, `rest` is still ahead. -/
structure Tracks (s : Metadata) (layout : List (List StoredBatch)) (next : Nat) (stored rest : List StoredBatch)
    (vs ws : List Bytes) : Prop where
  log : s.log.Holds layout next
  whole : layout.flatten = stored ++ rest
  values : s.appended = vs ++ ws
  before : List.Forall₂ Carries stored vs
  behind : List.Forall₂ Carries rest ws
  offset : s.fetcher.fetchOffset = stored.length
  phase : PhaseTracks s.fetcher.applied rest vs ws s.fetcher.phase

def Tracked (s : Metadata) : Prop := ∃ layout next stored rest vs ws, Tracks s layout next stored rest vs ws

theorem carried_count {fs : List StoredBatch} {vs : List Bytes} (carry : List.Forall₂ Carries fs vs) :
    (fs.map (fun f => f.count)).sum = fs.length := by
  induction carry with
  | nil => rfl
  | cons head _ ih =>
    rw [List.map_cons, List.sum_cons, ih, head.one, List.length_cons]
    omega

section Steps

variable {s : Metadata} {layout : List (List StoredBatch)} {next : Nat} {stored rest : List StoredBatch}
  {vs ws : List Bytes}

theorem answered_applied {applied : List Bytes} {records : Option Bytes}
    (tracks : PhaseTracks applied rest vs ws (.answered records)) : applied = vs := by
  cases records with
  | none => exact tracks
  | some raw => exact tracks.1

theorem phaseTracks_append {applied : List Bytes} {phase : MetadataPhase} (g : StoredBatch) (v : Bytes)
    (tracks : PhaseTracks applied rest vs ws phase) : PhaseTracks applied (rest ++ [g]) vs (ws ++ [v]) phase := by
  cases phase with
  | idle | asked bound => exact tracks
  | answered records =>
    cases records with
    | none => exact tracks
    | some raw =>
      obtain ⟨same, lead, more, parts, found⟩ := tracks
      exact ⟨same, lead, more ++ [g], by rw [parts, List.append_assoc], found⟩
  | applying raw todo =>
    obtain ⟨lead, more, us, others, parts, values, found⟩ := tracks
    exact ⟨lead, more ++ [g], us, others ++ [v], by rw [parts, List.append_assoc],
      by rw [values, List.append_assoc], found⟩
  | crashed => exact tracks

theorem append_tracked (tracks : Tracks s layout next stored rest vs ws) (now : Int) {value : Bytes}
    (nonempty : value ≠ []) (short : value.length < 2 ^ 31 - 100) (room : s.log.nextOffset + 1 < 2 ^ 63) :
    Tracked (s.append now value) := by
  have fits : next + 1 < 2 ^ 63 := by
    have offset := tracks.log.next
    omega
  obtain ⟨log, appended, holds, _⟩ := append_batch_holds tracks.log (metadataBatch now value short) fits
  have step : s.append now value = { s with log := log, appended := s.appended ++ [value] } := by
    unfold Metadata.append
    rw [show s.log.appendRaw (encodeAsRecordBatch now value) 1 = (log, .ok (next : Int)) from appended]
  rw [step]
  have carries := metadataBatch_carries now nonempty short fits
  refine ⟨_, _, stored, _, vs, _, holds, ?_, ?_, tracks.before, List.rel_append tracks.behind (.cons carries .nil),
    tracks.offset, phaseTracks_append _ value tracks.phase⟩
  · rw [flatten_placed, tracks.whole, List.append_assoc]
  · show s.appended ++ [value] = _
    rw [tracks.values, List.append_assoc]

theorem tracks_phase (tracks : Tracks s layout next stored rest vs ws) (same : s.fetcher.applied = vs)
    (ps : PartitionState) {phase : MetadataPhase} (after : PhaseTracks vs rest vs ws phase) :
    Tracked { s with ps := ps, fetcher := { s.fetcher with phase := phase } } :=
  ⟨layout, next, stored, rest, vs, ws, tracks.log, tracks.whole, tracks.values, tracks.before, tracks.behind,
    tracks.offset, by
      show PhaseTracks s.fetcher.applied rest vs ws phase
      rw [same]
      exact after⟩

theorem serve_tracked (tracks : Tracks s layout next stored rest vs ws) (maxVisible : Int)
    (same : s.fetcher.applied = vs)
    (aligned : s.log.nextOffset ≤ s.fetcher.fetchOffset ∨ leadsTo s.log s.fetcher.fetchOffset = true) :
    Tracked { s with fetcher := { s.fetcher with
      phase := .answered (fetchRecords s.log s.fetcher.fetchOffset partitionMaxBytes maxVisible) } } := by
  apply tracks_phase tracks same s.ps
  cases answer : fetchRecords s.log s.fetcher.fetchOffset partitionMaxBytes maxVisible with
  | none => rfl
  | some raw =>
    rw [tracks.offset] at answer aligned
    have chained := (linked_content tracks.log.linked).2
    rw [tracks.whole] at chained
    obtain ⟨m, first, _⟩ := chained_append.mp chained
    have count := chained_count first
    rw [carried_count tracks.before, Nat.zero_add] at count
    subst count
    obtain ⟨lead, more, parts, small, nonempty, bytes⟩ := fetchRecords_answered tracks.log tracks.whole first aligned
      (show 0 < partitionMaxBytes by decide) answer
    have length := length_le_bytesOf lead
    simp only [partitionMaxBytes] at small
    exact ⟨rfl, lead, more, parts, nonempty, by omega, bytes⟩

theorem receive_tracked (tracks : Tracks s layout next stored rest vs ws) (records : Option Bytes)
    (answer : PhaseTracks s.fetcher.applied rest vs ws (.answered records)) :
    Tracked { s with fetcher := s.fetcher.receive records } := by
  cases records with
  | none =>
    have same : s.fetcher.applied = vs := answer
    exact tracks_phase tracks same s.ps (show PhaseTracks vs rest vs ws .idle from rfl)
  | some raw =>
    obtain ⟨same, lead, more, parts, nonempty, small, rfl⟩ := answer
    have carry := tracks.behind
    rw [parts] at carry
    obtain ⟨us, others, values, leadCarry⟩ : ∃ us others, ws = us ++ others ∧ List.Forall₂ Carries lead us := by
      refine ⟨ws.take lead.length, ws.drop lead.length, (List.take_append_drop _ _).symm, ?_⟩
      have taken := List.forall₂_take lead.length carry
      rwa [List.take_left] at taken
    have bytes : 0 < (bytesOf lead).length := by
      have bound := length_le_bytesOf lead
      have positive := List.length_pos_of_ne_nil nonempty
      omega
    have received : s.fetcher.receive (some (bytesOf lead)) =
      { s.fetcher with phase := .applying (bytesOf lead) us } := by
      unfold MetadataFetcher.receive
      dsimp only
      rw [if_neg (by omega), decodeRecordValues_batches leadCarry]
    rw [received]
    exact tracks_phase tracks same s.ps ⟨lead, more, us, others, parts, values, leadCarry, nonempty, small, rfl, rfl⟩

theorem advance_tracked (tracks : Tracks s layout next stored rest vs ws) (raw : Bytes)
    (answer : PhaseTracks s.fetcher.applied rest vs ws (.applying raw [])) :
    Tracked { s with fetcher := s.fetcher.advance raw } := by
  obtain ⟨lead, more, us, others, parts, values, leadCarry, nonempty, small, rfl, applied⟩ := answer
  rw [List.append_nil] at applied
  have total := carried_count leadCarry
  have counted : countRecordsInRecordBatches (bytesOf lead) = .ok (lead.length : Int) := by
    rw [← total]
    apply countRecords_batches
    intro n below
    exact wrapSigned_natCast (by decide) (by omega)
  have advanced : s.fetcher.advance (bytesOf lead) =
      { s.fetcher with phase := .idle, fetchOffset := s.fetcher.fetchOffset + lead.length } := by
    have positive := List.length_pos_of_ne_nil nonempty
    unfold MetadataFetcher.advance
    rw [counted]
    dsimp only
    rw [if_pos (by omega)]
  have carry := tracks.behind
  have lengths := leadCarry.length_eq
  rw [parts, values] at carry
  have behind := List.forall₂_drop lead.length carry
  rw [List.drop_left, lengths, List.drop_left] at behind
  rw [advanced]
  refine ⟨layout, next, stored ++ lead, more, vs ++ us, others, tracks.log, ?_, ?_,
    List.rel_append tracks.before leadCarry, behind, ?_, applied⟩
  · rw [tracks.whole, parts, List.append_assoc]
  · show s.appended = _
    rw [tracks.values, values, List.append_assoc]
  · show s.fetcher.fetchOffset + lead.length = _
    rw [tracks.offset, List.length_append, Int.natCast_add]

end Steps

theorem step_tracked {s s' : Metadata} {a : MetadataAction} (tracked : Tracked s) (aligned : a.aligned s = true)
    (moves : Metadata.step a s = some s') : Tracked s' := by
  obtain ⟨layout, next, stored, rest, vs, ws, tracks⟩ := tracked
  have phase := tracks.phase
  cases a with
  | append now value =>
    simp only [Metadata.step] at moves
    split at moves
    · obtain rfl := Option.some.inj moves
      obtain ⟨nonempty, short⟩ := of_decide_eq_true aligned
      exact append_tracked tracks now nonempty short (by assumption)
    · cases moves
  | publish lastOffset =>
    simp only [Metadata.step] at moves
    split at moves
    · obtain rfl := Option.some.inj moves
      exact ⟨layout, next, stored, rest, vs, ws, tracks.log, tracks.whole, tracks.values, tracks.before,
        tracks.behind, tracks.offset, tracks.phase⟩
    · cases moves
  | request now =>
    simp only [Metadata.step] at moves
    split at moves
    · rename_i here
      rw [here] at phase
      obtain rfl := Option.some.inj moves
      exact tracks_phase tracks phase _ rfl
    · cases moves
  | serve =>
    simp only [Metadata.step] at moves
    split at moves
    · rename_i here
      rw [here] at phase
      obtain rfl := Option.some.inj moves
      apply serve_tracked tracks _ phase
      simpa only [MetadataAction.aligned, Bool.or_eq_true, decide_eq_true_eq] using aligned
    · cases moves
  | lose =>
    simp only [Metadata.step] at moves
    split at moves
    · rename_i here
      rw [here] at phase
      obtain rfl := Option.some.inj moves
      exact tracks_phase tracks phase s.ps rfl
    · rename_i records here
      rw [here] at phase
      obtain rfl := Option.some.inj moves
      exact tracks_phase tracks (answered_applied phase) s.ps rfl
    · cases moves
  | deliver =>
    simp only [Metadata.step] at moves
    split at moves
    · rename_i records here
      rw [here] at phase
      obtain rfl := Option.some.inj moves
      exact receive_tracked tracks records phase
    · cases moves
  | apply =>
    simp only [Metadata.step] at moves
    split at moves
    · rename_i raw value todo here
      rw [here] at phase
      obtain rfl := Option.some.inj moves
      obtain ⟨lead, more, us, others, parts, values, carry, nonempty, small, bytes, applied⟩ := phase
      exact ⟨layout, next, stored, rest, vs, ws, tracks.log, tracks.whole, tracks.values, tracks.before, tracks.behind,
        tracks.offset, lead, more, us, others, parts, values, carry, nonempty, small, bytes, by
          rw [← applied, List.append_assoc, List.singleton_append]⟩
    · cases moves
  | advance =>
    simp only [Metadata.step] at moves
    split at moves
    · rename_i raw here
      rw [here] at phase
      obtain rfl := Option.some.inj moves
      exact advance_tracked tracks raw phase
    · cases moves

theorem start_tracked {s : Metadata} (start : s.Start) : Tracked s := by
  obtain ⟨⟨layout, built, carry⟩, brokerID, fetcher⟩ := start
  obtain ⟨next, holds⟩ := built_holds built
  refine ⟨layout, next, [], layout.flatten, [], s.appended, holds, rfl, rfl, .nil, carry, ?_, ?_⟩
  · rw [fetcher]
    rfl
  · rw [fetcher]
    rfl

/-- In every run whose steps are aligned, the applied values are the first ones the controller appended, in its
order. Between two iterations the fetch offset is their number, and no answer makes the broker panic. -/
theorem metadata_applied {s : Metadata} (reached : Metadata.machine.Reached (fun s a => a.aligned s = true) s) :
    s.fetcher.applied <+: s.appended ∧
      ((∀ raw todo, s.fetcher.phase ≠ .applying raw todo) → s.fetcher.fetchOffset = s.fetcher.applied.length) ∧
      s.fetcher.phase ≠ .crashed := by
  have tracked : Tracked s := Machine.reached_invariant Tracked (fun _ => start_tracked) (fun _ _ _ => step_tracked)
    reached
  obtain ⟨layout, next, stored, rest, vs, ws, tracks⟩ := tracked
  have phase := tracks.phase
  have counted : s.fetcher.applied = vs → s.fetcher.applied <+: s.appended ∧
      s.fetcher.fetchOffset = s.fetcher.applied.length := by
    intro same
    refine ⟨⟨ws, by rw [same, tracks.values]⟩, ?_⟩
    rw [tracks.offset, same, tracks.before.length_eq]
  cases here : s.fetcher.phase with
  | idle | asked bound =>
    rw [here] at phase
    exact ⟨(counted phase).1, fun _ => (counted phase).2, nofun⟩
  | answered records =>
    rw [here] at phase
    have same := answered_applied phase
    exact ⟨(counted same).1, fun _ => (counted same).2, nofun⟩
  | applying raw todo =>
    rw [here] at phase
    obtain ⟨lead, more, us, others, parts, values, carry, nonempty, small, bytes, applied⟩ := phase
    refine ⟨⟨todo ++ others, ?_⟩, fun apart => absurd rfl (apart raw todo), nofun⟩
    rw [tracks.values, values, ← List.append_assoc, applied, List.append_assoc]
  | crashed =>
    rw [here] at phase
    exact phase.elim

def newMetadata : Metadata where
  log := newCommitLog ⟨1000, 4096⟩ []
  ps := ⟨1, [1], [1], 0, 0, fun _ => none, fun _ => none⟩
  appended := []
  fetcher := newMetadataFetcher 2

theorem newMetadata_start : newMetadata.Start where
  log := ⟨_, .empty _ (by decide) (by decide), .nil⟩
  fetcher := ⟨2, rfl⟩

/-- One iteration that applies two values. -/
theorem metadata_applied_two : ∃ s, Metadata.machine.Reached (fun s a => a.aligned s = true) s ∧
    s.fetcher.applied = [[1], [2]] ∧ s.fetcher.applied <+: s.appended := by
  obtain ⟨s, reached, applied⟩ := Metadata.machine.exec_reaches (fun s a => a.aligned s = true)
    (fun s a => a.aligned s) (fun _ _ checked => checked)
    [.append 0 [1], .append 0 [2], .publish 1, .request 0, .serve, .deliver, .apply, .apply, .advance]
    (fun s => decide (s.fetcher.applied = [[1], [2]])) newMetadata_start (by decide +kernel)
  exact ⟨s, reached, of_decide_eq_true applied, (metadata_applied reached).1⟩

/-- A broker that polls between two appends applies the first value again with the second, and its fetch offset
runs ahead of the log. -/
theorem metadata_applied_twice : ∃ s, Metadata.machine.Run s ∧ s.appended = [[1], [2]] ∧
    s.fetcher.applied = [[1], [1], [2]] ∧ ¬ s.fetcher.applied <+: s.appended ∧ s.fetcher.fetchOffset = 3 := by
  obtain ⟨s, reached, applied⟩ := Metadata.machine.exec_reaches (fun _ _ => True) (fun _ _ => true)
    (fun _ _ _ => trivial)
    [.append 0 [1], .publish 0, .request 0, .serve, .deliver, .apply, .advance, .append 0 [2], .publish 1, .request 0,
      .serve, .deliver, .apply, .apply, .advance]
    (fun s => decide (s.appended = [[1], [2]] ∧ s.fetcher.applied = [[1], [1], [2]] ∧
      ¬ s.fetcher.applied <+: s.appended ∧ s.fetcher.fetchOffset = 3))
    newMetadata_start (by decide +kernel)
  exact ⟨s, reached, of_decide_eq_true applied⟩

end KafGo.Server
