import KafGo.Storage.Batch
import KafGo.Lib.Search

/-!
The sparse offset index of a segment: entries of a 4-byte relative offset and a 4-byte file position
in a memory mapping. `entryCount` is not stored: an index that is opened again starts from no entries.
-/

namespace KafGo.Storage
open Lib

inductive LogError where
  | closed
  | tooShort
  | readHeader (pos : Int)
  | readLastOffsetDelta (pos : Int)
  | unexpectedEOF
  | outOfRange
  | diverges
  deriving DecidableEq, Repr

def entrySize : Nat := 8

structure IndexFile where
  content : Nat → UInt8
  size : Nat

structure OffsetIndex where
  mmap : Nat → UInt8
  baseOffset : Int
  size : Nat
  entryCount : Nat

/-- `binary.BigEndian.PutUint32` into a mapping. -/
def putUint32 (mmap : Nat → UInt8) (pos value : Nat) : Nat → UInt8 :=
  fun i => if pos ≤ i ∧ i < pos + 4 then (beBytes 4 value).getD (i - pos) 0 else mmap i

def getUint32 (mmap : Nat → UInt8) (pos : Nat) : Nat :=
  beNat [mmap pos, mmap (pos + 1), mmap (pos + 2), mmap (pos + 3)]

def emptyIndexFile : IndexFile := ⟨fun _ => 0, 0⟩

/-- An empty index file is first extended to one megabyte of zeros. -/
def newOffsetIndex (file : IndexFile) (baseOffset : Int) : OffsetIndex :=
  if file.size = 0 then ⟨fun _ => 0, baseOffset, 1024 * 1024, 0⟩
  else ⟨file.content, baseOffset, file.size, 0⟩

namespace OffsetIndex

def grow (idx : OffsetIndex) : OffsetIndex :=
  { idx with
    mmap := fun i => if i < idx.size then idx.mmap i else 0
    size := idx.size * 2 }

def reserve (idx : OffsetIndex) : OffsetIndex :=
  if idx.size < (idx.entryCount + 1) * entrySize then idx.grow else idx

def append (idx : OffsetIndex) (offset position : Int) : Except LogError OffsetIndex :=
  let idx := idx.reserve
  let relativeOffset := wrapSigned 32 (offset - idx.baseOffset)
  let entryPosition := idx.entryCount * entrySize
  -- A write past the mapping is an index panic.
  if entryPosition + entrySize ≤ idx.size then
    .ok { idx with
      mmap := putUint32 (putUint32 idx.mmap entryPosition (unsigned 32 relativeOffset))
        (entryPosition + 4) (unsigned 32 position)
      entryCount := idx.entryCount + 1 }
  else .error .outOfRange

def entryOffset (idx : OffsetIndex) (i : Nat) : Nat := getUint32 idx.mmap (i * entrySize)
def entryPosition (idx : OffsetIndex) (i : Nat) : Nat := getUint32 idx.mmap (i * entrySize + 4)

def probe (idx : OffsetIndex) (relativeOffset : Int) (mid : Nat) : Ordering :=
  if (idx.entryOffset mid : Int) = relativeOffset then .eq
  else if (idx.entryOffset mid : Int) < relativeOffset then .lt
  else .gt

/-- The difference of two `int64`, which wraps around. -/
def relativeOffset (idx : OffsetIndex) (offset : Int) : Int := wrapSigned 64 (offset - idx.baseOffset)

/-- The position of the entry with the largest offset not above the one asked for, or zero. -/
def lookup (idx : OffsetIndex) (offset : Int) : Nat :=
  if idx.entryCount = 0 then 0
  else
    let result := bisect (idx.probe (idx.relativeOffset offset)) idx.entryCount 0 (idx.entryCount - 1) (-1)
    if 0 ≤ result then idx.entryPosition result.toNat else 0

/-- `Close` cuts the file down to the entries in use. -/
def close (idx : OffsetIndex) : IndexFile := ⟨idx.mmap, idx.entryCount * entrySize⟩

def file (idx : OffsetIndex) : IndexFile := ⟨idx.mmap, idx.size⟩

end OffsetIndex

/-! ### Entries in the mapping -/

theorem getUint32_put_same (mmap : Nat → UInt8) (pos value : Nat) :
    getUint32 (putUint32 mmap pos value) pos = value % 2 ^ 32 := by
  have four : (beBytes 4 value).length = 4 := length_beBytes 4 value
  have cells : [putUint32 mmap pos value pos, putUint32 mmap pos value (pos + 1),
      putUint32 mmap pos value (pos + 2), putUint32 mmap pos value (pos + 3)] = beBytes 4 value := by
    apply List.ext_getElem
    · simp [four]
    · intro i lower upper
      have small : i < 4 := by simpa using lower
      have : i = 0 ∨ i = 1 ∨ i = 2 ∨ i = 3 := by omega
      rcases this with rfl | rfl | rfl | rfl <;> simp [putUint32, four]
  unfold getUint32
  rw [cells, beNat_beBytes]
  rfl

theorem getUint32_put_other (mmap : Nat → UInt8) {pos other : Nat} (value : Nat)
    (apart : other + 4 ≤ pos ∨ pos + 4 ≤ other) :
    getUint32 (putUint32 mmap pos value) other = getUint32 mmap other := by
  have outside : ∀ i, other ≤ i → i < other + 4 → putUint32 mmap pos value i = mmap i := by
    intro i lower upper
    exact if_neg (by omega)
  unfold getUint32
  rw [outside other (by omega) (by omega), outside (other + 1) (by omega) (by omega),
    outside (other + 2) (by omega) (by omega), outside (other + 3) (by omega) (by omega)]

namespace OffsetIndex

/-- An index whose entries lie inside its mapping, which holds at least one. -/
def Mapped (idx : OffsetIndex) : Prop :=
  entrySize ≤ idx.size ∧ idx.entryCount * entrySize ≤ idx.size

theorem newOffsetIndex_mapped {file : IndexFile} (whole : file.size = 0 ∨ entrySize ≤ file.size) (base : Int) :
    (newOffsetIndex file base).Mapped := by
  unfold newOffsetIndex Mapped
  split
  · simp [entrySize]
  · exact ⟨by dsimp only; omega, by simp⟩

theorem grow_entry {idx : OffsetIndex} {pos : Nat} (inside : pos + 4 ≤ idx.size) :
    getUint32 idx.grow.mmap pos = getUint32 idx.mmap pos := by
  have kept : ∀ i, i < idx.size → idx.grow.mmap i = idx.mmap i := fun i below => if_pos below
  unfold getUint32
  rw [kept _ (by omega), kept _ (by omega), kept _ (by omega), kept _ (by omega)]

theorem reserve_room {idx : OffsetIndex} (mapped : idx.Mapped) :
    idx.reserve.baseOffset = idx.baseOffset ∧ idx.reserve.entryCount = idx.entryCount ∧
      (idx.entryCount + 1) * 8 ≤ idx.reserve.size ∧
      ∀ pos, pos + 4 ≤ idx.entryCount * 8 →
        getUint32 idx.reserve.mmap pos = getUint32 idx.mmap pos := by
  obtain ⟨one, entries⟩ := mapped
  simp only [entrySize] at one entries
  by_cases full : idx.size < (idx.entryCount + 1) * entrySize
  · rw [show idx.reserve = idx.grow from if_pos full]
    refine ⟨rfl, rfl, ?_, fun pos inside => grow_entry (by omega)⟩
    simp only [grow]
    omega
  · rw [show idx.reserve = idx from if_neg full]
    simp only [entrySize] at full
    exact ⟨rfl, rfl, by omega, fun pos inside => rfl⟩

theorem unsigned_wrapSigned (x : Int) : unsigned 32 (wrapSigned 32 x) = unsigned 32 x := by
  have bound := unsigned_lt 32 x
  unfold wrapSigned signed
  split
  · rw [unsigned_natCast, Nat.mod_eq_of_lt bound]
  · rename_i big
    generalize unsigned 32 x = n at bound big
    unfold unsigned
    omega

theorem append_ok {idx : OffsetIndex} (mapped : idx.Mapped) (offset position : Int) :
    ∃ idx', idx.append offset position = .ok idx' ∧ idx'.Mapped ∧
      idx'.baseOffset = idx.baseOffset ∧ idx'.entryCount = idx.entryCount + 1 ∧
      idx'.entryOffset idx.entryCount = unsigned 32 (offset - idx.baseOffset) ∧
      idx'.entryPosition idx.entryCount = unsigned 32 position ∧
      ∀ i < idx.entryCount, idx'.entryOffset i = idx.entryOffset i ∧
        idx'.entryPosition i = idx.entryPosition i := by
  obtain ⟨base, count, room, same⟩ := reserve_room mapped
  have relative := unsigned_lt 32 (offset - idx.baseOffset)
  have absolute := unsigned_lt 32 position
  unfold append
  rw [if_pos (by simp only [entrySize, count]; omega)]
  refine ⟨_, rfl, ⟨?_, ?_⟩, base, by rw [count], ?_, ?_, ?_⟩
  · simp only [entrySize]
    omega
  · simp only [entrySize, count]
    omega
  · simp only [entryOffset, entrySize, count]
    rw [getUint32_put_other _ _ (by omega), getUint32_put_same, unsigned_wrapSigned, base,
      Nat.mod_eq_of_lt relative]
  · simp only [entryPosition, entrySize, count]
    rw [getUint32_put_same, Nat.mod_eq_of_lt absolute]
  · intro i older
    simp only [entryOffset, entryPosition, entrySize, count]
    rw [getUint32_put_other _ _ (by omega), getUint32_put_other _ _ (by omega), same _ (by omega),
      getUint32_put_other _ _ (by omega), getUint32_put_other _ _ (by omega), same _ (by omega)]
    exact ⟨rfl, rfl⟩

theorem relativeOffset_near {idx : OffsetIndex} {offset : Int} (low : -2 ^ 63 ≤ offset - idx.baseOffset)
    (high : offset - idx.baseOffset < 2 ^ 63) : idx.relativeOffset offset = offset - idx.baseOffset :=
  wrapSigned_fits (by decide) low high

/-- Whatever the entries hold, a lookup yields zero or the position of an entry that is not above the offset. -/
theorem lookup_below (idx : OffsetIndex) (offset : Int) :
    idx.lookup offset = 0 ∨ ∃ i < idx.entryCount, (idx.entryOffset i : Int) ≤ idx.relativeOffset offset ∧
      idx.lookup offset = idx.entryPosition i := by
  have hit : ∀ i < idx.entryCount, idx.probe (idx.relativeOffset offset) i ≠ .gt →
      (idx.entryOffset i : Int) ≤ idx.relativeOffset offset := by
    intro i below kept
    unfold probe at kept
    split at kept
    · omega
    · split at kept
      · omega
      · exact absurd rfl kept
  unfold lookup
  split
  · exact Or.inl rfl
  · have result := bisect_result (n := idx.entryCount)
      (p := fun r => r = -1 ∨ ∃ i < idx.entryCount, r = i ∧ (idx.entryOffset i : Int) ≤ idx.relativeOffset offset)
      (fun i below kept => .inr ⟨i, below, rfl, hit i below kept⟩) idx.entryCount 0 (idx.entryCount - 1) (-1)
      (by omega) (by omega) (Or.inl rfl)
    dsimp only
    generalize bisect (idx.probe (idx.relativeOffset offset)) idx.entryCount 0 (idx.entryCount - 1) (-1) = r
      at result ⊢
    rcases result with absent | ⟨i, below, rfl, low⟩
    · exact Or.inl (if_neg (by omega))
    · exact Or.inr ⟨i, below, low, if_pos (by omega)⟩

theorem lookup_entry (idx : OffsetIndex) (offset : Int) :
    idx.lookup offset = 0 ∨ ∃ i < idx.entryCount, idx.lookup offset = idx.entryPosition i := by
  rcases idx.lookup_below offset with zero | ⟨i, below, _, found⟩
  · exact Or.inl zero
  · exact Or.inr ⟨i, below, found⟩

/-- With strictly increasing entries the lookup is the floor: `k` entries are at or below the offset. -/
theorem lookup_floor {idx : OffsetIndex} {offset : Int} {k : Nat} (inside : k ≤ idx.entryCount)
    (increasing : ∀ i j, i < j → j < idx.entryCount → idx.entryOffset i < idx.entryOffset j)
    (floor : ∀ i < idx.entryCount, (idx.entryOffset i : Int) ≤ idx.relativeOffset offset ↔ i < k) :
    idx.lookup offset = if k = 0 then 0 else idx.entryPosition (k - 1) := by
  have found : bisect (idx.probe (idx.relativeOffset offset)) idx.entryCount 0 (idx.entryCount - 1) (-1) =
      (k : Int) - 1 := by
    apply bisect_floor inside
    · intro i below
      rw [← floor i below]
      unfold probe
      split
      · simp; omega
      · split
        · simp; omega
        · simp; omega
    · intro i below equal
      have hit : (idx.entryOffset i : Int) = idx.relativeOffset offset := by
        unfold probe at equal
        split at equal
        · assumption
        · split at equal <;> cases equal
      have low := (floor i below).mp (le_of_eq hit)
      by_contra apart
      have next := (floor (i + 1) (by omega)).mpr (by omega)
      have grows := increasing i (i + 1) (by omega) (by omega)
      omega
  unfold lookup
  rw [found]
  by_cases none : k = 0
  · subst none
    simp
  · rw [if_neg (by omega), if_pos (by omega), if_neg none, show ((k : Int) - 1).toNat = k - 1 by omega]

end OffsetIndex

end KafGo.Storage
