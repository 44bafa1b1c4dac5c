import KafGo.Coordinator.Idempotence
import KafGo.Lib.Crc32c
import KafGo.Storage.Batch
import Mathlib.Data.List.Sort

/-!
# Producer snapshots

The files that keep the deduplication state over a restart, one for each segment roll that got to write it,
named by the base offset of the new segment. A ring is written as the list of its used slots in array order,
without its write position.
-/

namespace KafGo.Coordinator
open Lib Storage

def producerSnapshotMagic : Nat := 0x4B41464B
def producerSnapshotVersion : Nat := 1
def producerStateHeaderSize : Nat := 35
def producerStateRingSlotBytes : Nat := 20

def producerSnapshotEntrySize : Nat := 168

/-- Producer ids are `int64`. -/
structure ProducerSnapshotEntry where
  producerId : Int
  log : ProducerBatchLog
  int64 : -2 ^ 63 ≤ producerId ∧ producerId < 2 ^ 63

inductive SnapshotError where
  | unexpectedEOF
  | crcMismatch
  | badMagic
  | unsupportedVersion (ver : Nat)
  | baseOffsetMismatch (file header : Int)
  | ringLenExceedsCapacity
  | missing
  | outOfMemory
  deriving DecidableEq, Repr

def encodeSlot (slot : ProducerRingSlot) : Bytes :=
  beBytes 4 (unsigned 32 slot.firstSeq) ++ (beBytes 4 (unsigned 32 slot.lastSeq) ++
    (beBytes 8 (unsigned 64 slot.baseOffset) ++ beBytes 4 (unsigned 32 slot.leaderEpoch)))

def ProducerBatchLog.usedSlots (log : ProducerBatchLog) : List ProducerRingSlot :=
  log.ring.toList.filter (fun slot => decide (0 ≤ slot.firstSeq))

def encodeProducerStateEntry (e : ProducerSnapshotEntry) : Bytes :=
  let ringLen := min 255 e.log.usedSlots.length
  beBytes 8 (unsigned 64 e.producerId) ++ (beBytes 2 (unsigned 16 e.log.lastEpoch) ++
    (beBytes 4 (unsigned 32 e.log.lastSeq) ++ (beBytes 8 (unsigned 64 e.log.lastOffset) ++
      (beBytes 4 (unsigned 32 e.log.lastLeaderEpoch) ++ (beBytes 8 (unsigned 64 e.log.lastTimestamp) ++
        (beBytes 1 ringLen ++ e.log.usedSlots.flatMap encodeSlot))))))

def decodeSlot (raw : Bytes) : ProducerRingSlot :=
  ⟨int32At raw 0, int32At raw 4, int64At raw 8, int32At raw 16⟩

def decodeSlots : Nat → Bytes → List ProducerRingSlot
  | 0, _ => []
  | n + 1, raw => decodeSlot raw :: decodeSlots n (raw.drop producerStateRingSlotBytes)

/-- The slots from the start of the array on, and unused ones behind them. -/
def ringOf (slots : List ProducerRingSlot) : Vector ProducerRingSlot idempotenceRingSize :=
  Vector.ofFn fun i => slots.getD i ⟨-1, 0, 0, 0⟩

def decodeLog (raw : Bytes) (ringLen : Nat) : ProducerBatchLog where
  lastEpoch := int16At raw 8
  lastSeq := int32At raw 10
  lastOffset := int64At raw 14
  lastLeaderEpoch := int32At raw 22
  lastTimestamp := int64At raw 26
  ring := ringOf (decodeSlots ringLen (raw.drop producerStateHeaderSize))
  ringHead := ⟨ringLen % idempotenceRingSize, Nat.mod_lt _ (by decide)⟩

def decodeProducerStateEntry (raw : Bytes) : Except SnapshotError (ProducerSnapshotEntry × Nat) :=
  if raw.length < producerStateHeaderSize then .error .unexpectedEOF
  else
    let ringLen := beNat (slice raw 34 1)
    if ringLen > idempotenceRingSize then .error .ringLenExceedsCapacity
    else if raw.length - producerStateHeaderSize < ringLen * producerStateRingSlotBytes then .error .unexpectedEOF
    else .ok (⟨int64At raw 0, decodeLog raw ringLen, int64At_fits raw 0⟩,
      producerStateHeaderSize + ringLen * producerStateRingSlotBytes)

def snapshotBody (snapshotOffset : Int) (entries : List ProducerSnapshotEntry) : Bytes :=
  beBytes 4 producerSnapshotMagic ++ (beBytes 2 producerSnapshotVersion ++
    (beBytes 8 (unsigned 64 snapshotOffset) ++ (beBytes 4 entries.length ++
      entries.flatMap encodeProducerStateEntry)))

def snapshotBytes (snapshotOffset : Int) (entries : List ProducerSnapshotEntry) : Bytes :=
  snapshotBody snapshotOffset entries ++ beBytes 4 (crc32c (snapshotBody snapshotOffset entries)).toNat

def decodeEntries : Nat → Bytes → Except SnapshotError (List ProducerSnapshotEntry)
  | 0, _ => .ok []
  | n + 1, raw => do
    let (e, consumed) ← decodeProducerStateEntry raw
    let rest ← decodeEntries n (raw.drop consumed)
    return e :: rest

/-- `make([]ProducerSnapshotEntry, 0, count)` ends the process if it does not get the memory. -/
def decodeSnapshot [Memory] (raw : Bytes) (expectedBase : Int) : Except SnapshotError (List ProducerSnapshotEntry) :=
  if raw.length < 22 then .error .unexpectedEOF
  else
    let body := raw.take (raw.length - 4)
    if (crc32c body).toNat ≠ beNat (raw.drop (raw.length - 4)) then .error .crcMismatch
    else if uint32At body 0 ≠ producerSnapshotMagic then .error .badMagic
    else if uint16At body 4 ≠ producerSnapshotVersion then .error (.unsupportedVersion (uint16At body 4))
    else if int64At body 6 ≠ expectedBase then .error (.baseOffsetMismatch expectedBase (int64At body 6))
    else if ¬ Allocates (uint32At body 14 * producerSnapshotEntrySize) (body.drop 18) then .error .outOfMemory
    else decodeEntries (uint32At body 14) (body.drop 18)

structure SnapshotFile where
  base : Int
  raw : Bytes

/-- The snapshot files of a directory. The name of a file is its base, so there is one for each base. -/
abbrev SnapshotDir := List SnapshotFile

/-- The file is written aside and renamed, so it is there as a whole or not at all. -/
def writeProducerSnapshot (dir : SnapshotDir) (snapshotOffset : Int) (entries : List ProducerSnapshotEntry) :
    SnapshotDir :=
  dir.filter (fun f => decide (f.base ≠ snapshotOffset)) ++ [⟨snapshotOffset, snapshotBytes snapshotOffset entries⟩]

def deleteProducerSnapshot (dir : SnapshotDir) (base : Int) : SnapshotDir :=
  dir.filter (fun f => decide (f.base ≠ base))

def listSnapshotFiles (dir : SnapshotDir) : List Int := (dir.map SnapshotFile.base).insertionSort (· ≤ ·)

def readSnapshot (dir : SnapshotDir) (base : Int) : Option Bytes :=
  (dir.find? fun f => decide (f.base = base)).map SnapshotFile.raw

section Load

variable [Memory] (read : Int → Option Bytes) (maxBase : Int)

def decodeSnapshotFile (base : Int) : Except SnapshotError (List ProducerSnapshotEntry) :=
  match read base with
  | none => .error .missing
  | some raw => decodeSnapshot raw base

/-- From the newest file down, skipping those above `maxBase` and those that do not decode; `none` if the process dies
over one of them. -/
def loadDown : List Int → Option (Int × Option (List ProducerSnapshotEntry))
  | [] => some (0, none)
  | base :: older =>
    if base > maxBase then loadDown older
    else match decodeSnapshotFile read base with
      | .error .outOfMemory => none
      | .error _ => loadDown older
      | .ok entries => some (base, some entries)

def loadLatest (files : List Int) :
    Option (Int × Option (List ProducerSnapshotEntry)) := loadDown read maxBase files.reverse

end Load

/-! ### Reading back -/

def ProducerRingSlot.reread (slot : ProducerRingSlot) : ProducerRingSlot :=
  ⟨wrapSigned 32 slot.firstSeq, wrapSigned 32 slot.lastSeq, wrapSigned 64 slot.baseOffset,
    wrapSigned 32 slot.leaderEpoch⟩

/-- A log after it went through a file: its used slots move to the front of the array, in array order, and
the write position is the one behind them. -/
def ProducerBatchLog.reread (log : ProducerBatchLog) : ProducerBatchLog where
  lastSeq := wrapSigned 32 log.lastSeq
  lastOffset := wrapSigned 64 log.lastOffset
  lastEpoch := wrapSigned 16 log.lastEpoch
  lastLeaderEpoch := wrapSigned 32 log.lastLeaderEpoch
  lastTimestamp := wrapSigned 64 log.lastTimestamp
  ring := ringOf (log.usedSlots.map ProducerRingSlot.reread)
  ringHead := ⟨log.usedSlots.length % idempotenceRingSize, Nat.mod_lt _ (by decide)⟩

def ProducerSnapshotEntry.reread (e : ProducerSnapshotEntry) : ProducerSnapshotEntry := { e with log := e.log.reread }

theorem length_usedSlots (log : ProducerBatchLog) : log.usedSlots.length ≤ idempotenceRingSize := by
  have bound := List.length_filter_le (fun slot : ProducerRingSlot => decide (0 ≤ slot.firstSeq)) log.ring.toList
  simpa [ProducerBatchLog.usedSlots] using bound

@[simp] theorem length_encodeSlot (slot : ProducerRingSlot) :
    (encodeSlot slot).length = producerStateRingSlotBytes := by
  simp [encodeSlot, producerStateRingSlotBytes]

theorem length_encodeSlots (slots : List ProducerRingSlot) :
    (slots.flatMap encodeSlot).length = slots.length * producerStateRingSlotBytes := by
  induction slots with
  | nil => rfl
  | cons slot slots ih =>
    rw [List.flatMap_cons, List.length_append, ih, length_encodeSlot, List.length_cons, Nat.add_mul, Nat.one_mul,
      Nat.add_comm]

theorem decodeSlot_encode (slot : ProducerRingSlot) (rest : Bytes) :
    decodeSlot (encodeSlot slot ++ rest) = slot.reread := by
  have seq := length_beBytes 4
  simp only [encodeSlot, List.append_assoc, decodeSlot, ProducerRingSlot.reread, ProducerRingSlot.mk.injEq]
  refine ⟨int32At_here _ _, ?_, ?_, ?_⟩
  · exact (int32At_skip (seq _) 0).trans (int32At_here _ _)
  · exact (int64At_skip (seq _) 4).trans ((int64At_skip (seq _) 0).trans (int64At_here _ _))
  · exact (int32At_skip (seq _) 12).trans ((int32At_skip (seq _) 8).trans
      ((int32At_skip (length_beBytes 8 _) 0).trans (int32At_here _ _)))

theorem decodeSlots_encode (slots : List ProducerRingSlot) (rest : Bytes) :
    decodeSlots slots.length (slots.flatMap encodeSlot ++ rest) = slots.map ProducerRingSlot.reread := by
  induction slots with
  | nil => rfl
  | cons slot slots ih =>
    rw [List.length_cons, decodeSlots, List.flatMap_cons, List.append_assoc, decodeSlot_encode,
      List.drop_left' (length_encodeSlot slot), ih, List.map_cons]

theorem length_encodeEntry (e : ProducerSnapshotEntry) : (encodeProducerStateEntry e).length =
    producerStateHeaderSize + e.log.usedSlots.length * producerStateRingSlotBytes := by
  simp only [encodeProducerStateEntry, List.length_append, length_beBytes, length_encodeSlots,
    producerStateHeaderSize]
  omega

theorem decodeLog_encode (e : ProducerSnapshotEntry) (rest : Bytes) :
    decodeLog (encodeProducerStateEntry e ++ rest) e.log.usedSlots.length = e.log.reread := by
  have two := length_beBytes 2
  have four := length_beBytes 4
  have eight := length_beBytes 8
  simp only [encodeProducerStateEntry, List.append_assoc, decodeLog, ProducerBatchLog.reread,
    ProducerBatchLog.mk.injEq, and_true]
  refine ⟨?_, ?_, ?_, ?_, ?_, ?_⟩
  · exact (int32At_skip (eight _) 2).trans ((int32At_skip (two _) 0).trans (int32At_here _ _))
  · exact (int64At_skip (eight _) 6).trans ((int64At_skip (two _) 4).trans ((int64At_skip (four _) 0).trans
      (int64At_here _ _)))
  · exact (int16At_skip (eight _) 0).trans (int16At_here _ _)
  · exact (int32At_skip (eight _) 14).trans ((int32At_skip (two _) 12).trans ((int32At_skip (four _) 8).trans
      ((int32At_skip (eight _) 0).trans (int32At_here _ _))))
  · exact (int64At_skip (eight _) 18).trans ((int64At_skip (two _) 16).trans ((int64At_skip (four _) 12).trans
      ((int64At_skip (eight _) 4).trans ((int64At_skip (four _) 0).trans (int64At_here _ _)))))
  · congr 1
    rw [← decodeSlots_encode e.log.usedSlots rest]
    rfl

theorem decodeEntry_encode (e : ProducerSnapshotEntry) (rest : Bytes) :
    decodeProducerStateEntry (encodeProducerStateEntry e ++ rest) =
      .ok (e.reread, (encodeProducerStateEntry e).length) := by
  have room := length_usedSlots e.log
  have size := length_encodeEntry e
  have ringLen : beNat (slice (encodeProducerStateEntry e ++ rest) 34 1) = e.log.usedSlots.length := by
    have field : slice (encodeProducerStateEntry e ++ rest) 34 1 = beBytes 1 (min 255 e.log.usedSlots.length) := by
      simp only [encodeProducerStateEntry, List.append_assoc]
      exact (slice_skip (length_beBytes 8 _) 26 1).trans ((slice_skip (length_beBytes 2 _) 24 1).trans
        ((slice_skip (length_beBytes 4 _) 20 1).trans ((slice_skip (length_beBytes 8 _) 12 1).trans
          ((slice_skip (length_beBytes 4 _) 8 1).trans ((slice_skip (length_beBytes 8 _) 0 1).trans
            (slice_here (length_beBytes 1 _)))))))
    rw [field, beNat_beBytes]
    simp only [idempotenceRingSize] at room
    omega
  have producerId : int64At (encodeProducerStateEntry e ++ rest) 0 = e.producerId := by
    have read : int64At (encodeProducerStateEntry e ++ rest) 0 = wrapSigned 64 e.producerId := by
      simp only [encodeProducerStateEntry, List.append_assoc]
      exact int64At_here _ _
    rw [read, wrapSigned_fits (by decide) e.int64.1 e.int64.2]
  unfold decodeProducerStateEntry
  rw [if_neg (by rw [List.length_append, size]; omega)]
  dsimp only
  rw [ringLen, if_neg (by omega), if_neg (by rw [List.length_append, size]; omega), size]
  simp only [decodeLog_encode, producerId]
  rfl

theorem decodeEntries_encode (entries : List ProducerSnapshotEntry) (rest : Bytes) :
    decodeEntries entries.length (entries.flatMap encodeProducerStateEntry ++ rest) =
      .ok (entries.map ProducerSnapshotEntry.reread) := by
  induction entries with
  | nil => rfl
  | cons e entries ih =>
    rw [List.length_cons, decodeEntries, List.flatMap_cons, List.append_assoc, decodeEntry_encode]
    simp only [bind, Except.bind]
    rw [List.drop_left, ih]
    rfl

theorem allocates_count (body : Bytes) (pos : Nat) (left : Bytes) :
    Allocates (uint32At body pos * producerSnapshotEntrySize) left := by
  have count : uint32At body pos < 256 ^ 4 :=
    Nat.lt_of_lt_of_le (beNat_lt _) (Nat.pow_le_pow_right (by decide) (by simp [slice]))
  rw [allocates_ample]
  unfold producerSnapshotEntrySize maxAlloc
  omega

variable {base maxBase : Int} {entries : List ProducerSnapshotEntry} {dir : SnapshotDir}

theorem decodeSnapshot_written (lower : -2 ^ 63 ≤ base) (upper : base < 2 ^ 63) (entries : List ProducerSnapshotEntry) :
    decodeSnapshot (snapshotBytes base entries) base =
      .ok ((entries.take (entries.length % 2 ^ 32)).map ProducerSnapshotEntry.reread) := by
  have size : (snapshotBytes base entries).length - 4 = (snapshotBody base entries).length := by
    simp [snapshotBytes]
  have body : (snapshotBytes base entries).take ((snapshotBytes base entries).length - 4) =
      snapshotBody base entries := by
    rw [size]
    exact List.take_left
  have trailer : (snapshotBytes base entries).drop ((snapshotBytes base entries).length - 4) =
      beBytes 4 (crc32c (snapshotBody base entries)).toNat := by
    rw [size]
    exact List.drop_left
  have long : 22 ≤ (snapshotBytes base entries).length := by
    simp only [snapshotBytes, snapshotBody, List.length_append, length_beBytes]
    omega
  have checksum : beNat (beBytes 4 (crc32c (snapshotBody base entries)).toNat) =
      (crc32c (snapshotBody base entries)).toNat := by
    rw [beNat_beBytes]
    exact Nat.mod_eq_of_lt (UInt32.toNat_lt _)
  have magic : uint32At (snapshotBody base entries) 0 = producerSnapshotMagic := by
    unfold uint32At snapshotBody
    rw [slice_here (length_beBytes 4 _)]
    rfl
  have version : uint16At (snapshotBody base entries) 4 = producerSnapshotVersion := by
    have field : slice (snapshotBody base entries) 4 2 = beBytes 2 producerSnapshotVersion :=
      (slice_skip (length_beBytes 4 _) 0 2).trans (slice_here (length_beBytes 2 _))
    unfold uint16At
    rw [field]
    rfl
  have stored : int64At (snapshotBody base entries) 6 = base := by
    have field : int64At (snapshotBody base entries) 6 = wrapSigned 64 base :=
      (int64At_skip (length_beBytes 4 _) 2).trans ((int64At_skip (length_beBytes 2 _) 0).trans (int64At_here _ _))
    rw [field, wrapSigned_fits (by decide) lower upper]
  have count : uint32At (snapshotBody base entries) 14 = (entries.take (entries.length % 2 ^ 32)).length := by
    have field : slice (snapshotBody base entries) 14 4 = beBytes 4 entries.length :=
      (slice_skip (length_beBytes 4 _) 10 4).trans ((slice_skip (length_beBytes 2 _) 8 4).trans
        ((slice_skip (length_beBytes 8 _) 0 4).trans (slice_here (length_beBytes 4 _))))
    unfold uint32At
    rw [field, beNat_beBytes, List.length_take, Nat.min_eq_left (Nat.mod_le _ _)]
    rfl
  have rest : (snapshotBody base entries).drop 18 =
      (entries.take (entries.length % 2 ^ 32)).flatMap encodeProducerStateEntry ++
        (entries.drop (entries.length % 2 ^ 32)).flatMap encodeProducerStateEntry := by
    rw [← List.flatMap_append, List.take_append_drop]
    rfl
  unfold decodeSnapshot
  rw [if_neg (by omega)]
  dsimp only
  rw [body, trailer, checksum, magic, version, stored, if_neg (by simp), if_neg (by simp), if_neg (by simp),
    if_neg (by simp), if_neg (not_not.mpr (allocates_count _ 14 _)), count, rest, decodeEntries_encode]

theorem decodeSnapshot_bytes (lower : -2 ^ 63 ≤ base) (upper : base < 2 ^ 63) (few : entries.length < 2 ^ 32) :
    decodeSnapshot (snapshotBytes base entries) base = .ok (entries.map ProducerSnapshotEntry.reread) := by
  rw [decodeSnapshot_written lower upper, Nat.mod_eq_of_lt few, List.take_length]

/-- The file of the directory with the highest base up to `maxBase`. -/
structure Newest (dir : SnapshotDir) (maxBase base : Int) (raw : Bytes) : Prop where
  present : ⟨base, raw⟩ ∈ dir
  below : base ≤ maxBase
  highest : ∀ f ∈ dir, f.base ≤ maxBase → f.base ≤ base
  only : ∀ f ∈ dir, f.base = base → f.raw = raw

theorem newest_written (entries : List ProducerSnapshotEntry) (below : base ≤ maxBase)
    (latest : ∀ f ∈ dir, f.base ≤ maxBase → f.base ≤ base) :
    Newest (writeProducerSnapshot dir base entries) maxBase base (snapshotBytes base entries) := by
  refine ⟨List.mem_append_right _ (List.mem_singleton_self _), below, ?_, ?_⟩
  · intro f member within
    rcases List.mem_append.mp member with old | new
    · exact latest f (List.mem_filter.mp old).1 within
    · rw [List.mem_singleton.mp new]
  · intro f member same
    rcases List.mem_append.mp member with old | new
    · have apart := (List.mem_filter.mp old).2
      rw [decide_eq_true_eq] at apart
      exact absurd same apart
    · rw [List.mem_singleton.mp new]

/-! ### The latest base -/

/-- The result is the largest accepted base up to `maxBase`, or nothing if there is none. -/
def IsLatest (accepted : Int → List ProducerSnapshotEntry → Prop) (maxBase : Int)
    (result : Int × Option (List ProducerSnapshotEntry)) : Prop :=
  (∃ base entries, result = (base, some entries) ∧ accepted base entries ∧ base ≤ maxBase ∧
    ∀ other entries', accepted other entries' → other ≤ maxBase → other ≤ base) ∨
  result = (0, none) ∧ ∀ base entries, accepted base entries → maxBase < base

/-- Every file up to `maxBase` that asks for too much memory has a newer one up to `maxBase` that decodes. -/
def Shielded (decode : Int → Except SnapshotError (List ProducerSnapshotEntry)) (maxBase : Int) (files : List Int) :
    Prop :=
  ∀ base ∈ files, base ≤ maxBase → decode base = .error .outOfMemory →
    ∃ newer ∈ files, ∃ entries, base < newer ∧ newer ≤ maxBase ∧ decode newer = .ok entries

section Latest

variable [Memory] {read : Int → Option Bytes} {maxBase first : Int} {older bases : List Int}

theorem loadDown_above (above : first > maxBase) :
    loadDown read maxBase (first :: older) = loadDown read maxBase older :=
  if_pos above

theorem loadDown_error (low : ¬ first > maxBase) {e : SnapshotError} (failed : decodeSnapshotFile read first = .error e)
    (harmless : e ≠ .outOfMemory) : loadDown read maxBase (first :: older) = loadDown read maxBase older := by
  rw [loadDown, if_neg low, failed]
  split
  · rename_i fatal
    exact absurd (Except.error.inj fatal) harmless
  · rfl
  · rename_i found
    cases found

theorem loadDown_fatal (low : ¬ first > maxBase) (failed : decodeSnapshotFile read first = .error .outOfMemory) :
    loadDown read maxBase (first :: older) = none := by
  rw [loadDown, if_neg low, failed]

theorem loadDown_ok (low : ¬ first > maxBase) {entries : List ProducerSnapshotEntry}
    (found : decodeSnapshotFile read first = .ok entries) :
    loadDown read maxBase (first :: older) = some (first, some entries) := by
  rw [loadDown, if_neg low, found]

theorem loadDown_latest {result : Int × Option (List ProducerSnapshotEntry)}
    (descending : bases.Pairwise fun a b => b ≤ a) (returned : loadDown read maxBase bases = some result) :
    IsLatest (fun base entries => base ∈ bases ∧ decodeSnapshotFile read base = .ok entries) maxBase result := by
  induction bases with
  | nil =>
    obtain rfl := Option.some.inj returned
    exact .inr ⟨rfl, fun base entries accepted => absurd accepted.1 List.not_mem_nil⟩
  | cons first older ih =>
    obtain ⟨below, descending⟩ := List.pairwise_cons.mp descending
    -- a base that is passed is above the maximum or does not decode
    have passed : (∀ entries, decodeSnapshotFile read first = .ok entries → maxBase < first) →
        loadDown read maxBase older = some result →
        IsLatest (fun base entries => base ∈ first :: older ∧ decodeSnapshotFile read base = .ok entries) maxBase
          result := by
      intro skipped returned
      rcases ih descending returned with ⟨base, entries, result, ⟨member, decoded⟩, low, highest⟩ | ⟨result, above⟩
      · refine .inl ⟨base, entries, result, ⟨List.mem_cons_of_mem _ member, decoded⟩, low, ?_⟩
        rintro other entries' ⟨member', decoded'⟩ low'
        rcases List.mem_cons.mp member' with rfl | later
        · have high := skipped _ decoded'
          omega
        · exact highest other entries' ⟨later, decoded'⟩ low'
      · refine .inr ⟨result, ?_⟩
        rintro base entries ⟨member, decoded⟩
        rcases List.mem_cons.mp member with rfl | later
        · exact skipped _ decoded
        · exact above base entries ⟨later, decoded⟩
    by_cases above : first > maxBase
    · rw [loadDown_above above] at returned
      exact passed (fun _ _ => above) returned
    · cases decoded : decodeSnapshotFile read first with
      | error e =>
        have lost : ∀ entries, decodeSnapshotFile read first = .ok entries → maxBase < first := by
          intro entries found
          cases decoded.symm.trans found
        by_cases fatal : e = .outOfMemory
        · rw [loadDown_fatal above (fatal ▸ decoded)] at returned
          cases returned
        · rw [loadDown_error above decoded fatal] at returned
          exact passed lost returned
      | ok entries =>
        rw [loadDown_ok above decoded] at returned
        obtain rfl := Option.some.inj returned
        refine .inl ⟨first, entries, rfl, ⟨List.mem_cons_self, decoded⟩, by omega, ?_⟩
        rintro other entries' ⟨member, _⟩ _
        rcases List.mem_cons.mp member with rfl | later
        · exact Int.le_refl _
        · exact below other later

theorem loadDown_isSome (descending : bases.Pairwise fun a b => b ≤ a) :
    (loadDown read maxBase bases).isSome = true ↔ Shielded (decodeSnapshotFile read) maxBase bases := by
  induction bases with
  | nil => exact iff_of_true rfl fun base member => absurd member List.not_mem_nil
  | cons first older ih =>
    obtain ⟨below, descending⟩ := List.pairwise_cons.mp descending
    -- a base that is passed neither shields nor is fatal
    have passed : (first ≤ maxBase → decodeSnapshotFile read first ≠ .error .outOfMemory ∧
          ∀ entries, decodeSnapshotFile read first ≠ .ok entries) →
        (Shielded (decodeSnapshotFile read) maxBase older ↔
          Shielded (decodeSnapshotFile read) maxBase (first :: older)) := by
      intro skipped
      constructor
      · intro shielded base member low fatal
        rcases List.mem_cons.mp member with rfl | later
        · exact absurd fatal (skipped low).1
        · obtain ⟨newer, inside, rest⟩ := shielded base later low fatal
          exact ⟨newer, List.mem_cons_of_mem _ inside, rest⟩
      · intro shielded base later low fatal
        obtain ⟨newer, inside, entries, above, low', found⟩ := shielded base (List.mem_cons_of_mem _ later) low fatal
        rcases List.mem_cons.mp inside with rfl | inside
        · exact absurd found ((skipped low').2 entries)
        · exact ⟨newer, inside, entries, above, low', found⟩
    by_cases above : first > maxBase
    · rw [loadDown_above above, ih descending]
      exact passed fun low => by omega
    · cases decoded : decodeSnapshotFile read first with
      | error e =>
        by_cases fatal : e = .outOfMemory
        · subst fatal
          rw [loadDown_fatal above decoded]
          refine iff_of_false (by simp) fun shielded => ?_
          obtain ⟨newer, inside, entries, higher, low, found⟩ :=
            shielded first List.mem_cons_self (by omega) decoded
          rcases List.mem_cons.mp inside with rfl | later
          · omega
          · have := below newer later
            omega
        · rw [loadDown_error above decoded fatal, ih descending]
          refine passed fun _ => ⟨fun died => fatal ?_, fun entries found => ?_⟩
          · exact Except.error.inj (decoded.symm.trans died)
          · cases decoded.symm.trans found
      | ok entries =>
        rw [loadDown_ok above decoded]
        refine iff_of_true rfl fun base member low died => ⟨first, List.mem_cons_self, entries, ?_, by omega, decoded⟩
        rcases List.mem_cons.mp member with rfl | later
        · cases decoded.symm.trans died
        · have at_most := below base later
          by_cases same : base = first
          · subst same
            cases decoded.symm.trans died
          · omega

end Latest

section Sorted

variable {decode : Int → Except SnapshotError (List ProducerSnapshotEntry)} {maxBase : Int}

variable {result : Int × Option (List ProducerSnapshotEntry)}

theorem IsLatest.congr {accepted accepted' : Int → List ProducerSnapshotEntry → Prop}
    (latest : IsLatest accepted maxBase result)
    (same : ∀ base entries, accepted base entries ↔ accepted' base entries) : IsLatest accepted' maxBase result := by
  have equal : accepted = accepted' := by
    funext base entries
    exact propext (same base entries)
  rwa [← equal]

theorem sorted_descending (bases : List Int) :
    (bases.insertionSort (· ≤ ·)).reverse.Pairwise fun a b => b ≤ a := by
  rw [List.pairwise_reverse]
  exact List.pairwise_insertionSort (· ≤ ·) bases

theorem mem_sorted {bases : List Int} {base : Int} : base ∈ (bases.insertionSort (· ≤ ·)).reverse ↔ base ∈ bases := by
  rw [List.mem_reverse, List.mem_insertionSort]

theorem loadLatest_sorted [Memory] {read : Int → Option Bytes} {bases : List Int}
    (returned : loadLatest read maxBase (bases.insertionSort (· ≤ ·)) = some result) :
    IsLatest (fun base entries => base ∈ bases ∧ decodeSnapshotFile read base = .ok entries) maxBase result :=
  (loadDown_latest (sorted_descending bases) returned).congr fun _ _ => and_congr_left' mem_sorted

theorem loadLatest_isSome [Memory] (read : Int → Option Bytes) (maxBase : Int) (bases : List Int) :
    (loadLatest read maxBase (bases.insertionSort (· ≤ ·))).isSome = true ↔
      Shielded (decodeSnapshotFile read) maxBase bases := by
  unfold loadLatest
  rw [loadDown_isSome (sorted_descending bases)]
  simp only [Shielded, mem_sorted]

theorem IsLatest.unique {result' : Int × Option (List ProducerSnapshotEntry)}
    (one : IsLatest (fun base entries => decode base = .ok entries) maxBase result)
    (other : IsLatest (fun base entries => decode base = .ok entries) maxBase result') : result = result' := by
  rcases one with ⟨base, entries, rfl, decoded, low, highest⟩ | ⟨rfl, above⟩
  · rcases other with ⟨base', entries', rfl, decoded', low', highest'⟩ | ⟨_, above⟩
    · obtain rfl : base = base' :=
        Int.le_antisymm (highest' _ _ decoded low) (highest _ _ decoded' low')
      rw [Except.ok.inj (decoded.symm.trans decoded')]
    · have high := above _ _ decoded
      omega
  · rcases other with ⟨base', entries', _, decoded', low', _⟩ | ⟨rfl, _⟩
    · have high := above _ _ decoded'
      omega
    · rfl

end Sorted

theorem decodeSnapshot_survives (raw : Bytes) (base : Int) : decodeSnapshot raw base ≠ .error .outOfMemory := by
  have entries : ∀ n left, decodeEntries n left ≠ .error .outOfMemory := by
    intro n
    induction n with
    | zero => exact fun _ => nofun
    | succ n ih =>
      intro left failed
      rw [decodeEntries] at failed
      rcases first : decodeProducerStateEntry left with e | ⟨e, consumed⟩
      · rw [first] at failed
        obtain rfl := Except.error.inj failed
        unfold decodeProducerStateEntry at first
        dsimp only at first
        repeat' split at first
        all_goals cases first
      · rw [first] at failed
        rcases rest : decodeEntries n (left.drop consumed) with e' | es
        · simp only [bind, Except.bind, rest] at failed
          obtain rfl := Except.error.inj failed
          exact ih _ rest
        · simp only [bind, Except.bind, rest] at failed
          cases failed
  unfold decodeSnapshot
  dsimp only
  rw [if_neg (not_not.mpr (allocates_count _ 14 _))]
  repeat' split
  all_goals first
    | exact entries _ _
    | nofun

theorem shielded_ample (read : Int → Option Bytes) (maxBase : Int) (bases : List Int) :
    Shielded (decodeSnapshotFile read) maxBase bases := by
  intro base _ _ fatal
  unfold decodeSnapshotFile at fatal
  split at fatal
  · cases fatal
  · exact absurd fatal (decodeSnapshot_survives _ _)

theorem loadLatest_returns (dir : SnapshotDir) (maxBase : Int) :
    (loadLatest (readSnapshot dir) maxBase (listSnapshotFiles dir)).isSome = true :=
  (loadLatest_isSome _ _ _).mpr (shielded_ample _ _ _)

def loadLatestProducerSnapshot (dir : SnapshotDir) (maxBase : Int) : Int × Option (List ProducerSnapshotEntry) :=
  (loadLatest (readSnapshot dir) maxBase (listSnapshotFiles dir)).get (loadLatest_returns dir maxBase)

theorem decodeSnapshotFile_present (decoded : decodeSnapshotFile (readSnapshot dir) base = .ok entries) :
    ∃ f ∈ dir, f.base = base := by
  unfold decodeSnapshotFile at decoded
  split at decoded
  · cases decoded
  · rename_i raw read
    obtain ⟨f, found, _⟩ := Option.map_eq_some_iff.mp read
    exact ⟨f, List.mem_of_find?_eq_some found, by simpa using List.find?_some found⟩

theorem loadLatest_isLatest (dir : SnapshotDir) (maxBase : Int) :
    IsLatest (fun base entries => decodeSnapshotFile (readSnapshot dir) base = .ok entries) maxBase
      (loadLatestProducerSnapshot dir maxBase) := by
  have returned := (Option.some_get (loadLatest_returns dir maxBase)).symm
  refine (loadLatest_sorted returned).congr fun base entries => ⟨And.right, fun decoded => ⟨?_, decoded⟩⟩
  exact List.mem_map.mpr (decodeSnapshotFile_present decoded)

theorem loadLatest_newest {raw : Bytes} (newest : Newest dir maxBase base raw)
    (decoded : decodeSnapshot raw base = .ok entries) :
    loadLatestProducerSnapshot dir maxBase = (base, some entries) := by
  have read : decodeSnapshotFile (readSnapshot dir) base = .ok entries := by
    unfold decodeSnapshotFile readSnapshot
    cases found : dir.find? (fun f => decide (f.base = base)) with
    | none =>
      have absent := List.find?_eq_none.mp found _ newest.present
      simp at absent
    | some f =>
      have named : f.base = base := by simpa using List.find?_some found
      rw [Option.map_some, newest.only f (List.mem_of_find?_eq_some found) named]
      exact decoded
  refine (loadLatest_isLatest dir maxBase).unique (.inl ⟨base, entries, rfl, read, newest.below, ?_⟩)
  intro other entries' decoded' within
  obtain ⟨f, inside, rfl⟩ := decodeSnapshotFile_present decoded'
  exact newest.highest f inside within

theorem loadLatest_none (above : ∀ f ∈ dir, maxBase < f.base) :
    loadLatestProducerSnapshot dir maxBase = (0, none) := by
  refine (loadLatest_isLatest dir maxBase).unique (.inr ⟨rfl, ?_⟩)
  intro base entries decoded
  obtain ⟨f, inside, rfl⟩ := decodeSnapshotFile_present decoded
  exact above f inside

theorem loadLatest_le (dir : SnapshotDir) (nonneg : 0 ≤ maxBase) :
    (loadLatestProducerSnapshot dir maxBase).1 ≤ maxBase := by
  rcases loadLatest_isLatest dir maxBase with ⟨base, entries, result, _, below, _⟩ | ⟨result, _⟩
  · rw [result]
    exact below
  · rw [result]
    exact nonneg

end KafGo.Coordinator
